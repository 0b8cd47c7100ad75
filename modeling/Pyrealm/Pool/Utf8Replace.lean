import Pyrealm.Pool.PyCodec

/-!
# Decoding with replacement characters

`bytes.decode("utf-8", errors="replace")`: where no well-formed character
starts, the longest run of bytes that could begin one, or a single byte, becomes
U+FFFD.

* `decodeUtf8Replace_of_valid`: well-formed text decodes as itself, so that two
  well-formed byte strings decode alike only if they are equal (`replace_inj_of_valid`).
-/

namespace Py

/-- The second bytes that may follow this lead byte. -/
def secondRange (lead : Nat) : Nat × Nat :=
  if lead = 0xE0 then (0xA0, 0xBF)
  else if lead = 0xED then (0x80, 0x9F)
  else if lead = 0xF0 then (0x90, 0xBF)
  else if lead = 0xF4 then (0x80, 0x8F)
  else (0x80, 0xBF)

def IsSecond (lead b : UInt8) : Prop :=
  (secondRange lead.toNat).1 ≤ b.toNat ∧ b.toNat ≤ (secondRange lead.toNat).2

instance (lead b : UInt8) : Decidable (IsSecond lead b) := inferInstanceAs (Decidable (_ ∧ _))

/-- The number of bytes at the front that one U+FFFD replaces, where no
well-formed character starts. -/
def malformedLength : Bytes → Nat
  | lead :: second :: third :: _ =>
    if lead.toNat < 0xC2 ∨ 0xF4 < lead.toNat ∨ ¬ IsSecond lead second then 1
    else if third.toNat < 0x80 ∨ 0xBF < third.toNat then 2
    else 3
  | [lead, second] =>
    if lead.toNat < 0xC2 ∨ 0xF4 < lead.toNat ∨ ¬ IsSecond lead second then 1 else 2
  | _ => 1

theorem malformedLength_pos (bs : Bytes) : 0 < malformedLength bs := by
  unfold malformedLength
  split
  · split
    · omega
    · split
      · omega
      · omega
  · split
    · omega
    · omega
  · omega

def REPLACEMENT : Char := Char.ofNat 0xFFFD

def decodeReplaceFuel : Nat → Bytes → List Char
  | _, [] => []
  | 0, _ :: _ => []
  | fuel + 1, b :: bs =>
    match headUtf8 (b :: bs) with
    | some c => c :: decodeReplaceFuel fuel ((b :: bs).drop c.utf8Size)
    | none => REPLACEMENT :: decodeReplaceFuel fuel ((b :: bs).drop (malformedLength (b :: bs)))

/-- `bs.decode("utf-8", errors="replace")`; every character takes a byte, so the
length is fuel enough. -/
def decodeUtf8Replace (bs : Bytes) : List Char := decodeReplaceFuel bs.length bs

/-- More fuel than there are bytes changes nothing. -/
theorem decodeReplaceFuel_eq (bs : Bytes) (fuel : Nat) (h : bs.length ≤ fuel) :
    decodeReplaceFuel fuel bs = decodeUtf8Replace bs := by
  have hall : ∀ n (bs : Bytes) fuel fuel', bs.length ≤ n → bs.length ≤ fuel → bs.length ≤ fuel' →
      decodeReplaceFuel fuel bs = decodeReplaceFuel fuel' bs := by
    intro n
    induction n with
    | zero =>
      intro bs fuel fuel' hn _ _
      cases List.eq_nil_of_length_eq_zero (Nat.le_zero.mp hn)
      cases fuel <;> cases fuel' <;> rfl
    | succ n ih =>
      intro bs fuel fuel' hn hf hf'
      cases bs with
      | nil => cases fuel <;> cases fuel' <;> rfl
      | cons b bs =>
        rw [List.length_cons] at hn hf hf'
        obtain ⟨k, rfl⟩ : ∃ k, fuel = k + 1 := ⟨fuel - 1, by omega⟩
        obtain ⟨k', rfl⟩ : ∃ k', fuel' = k' + 1 := ⟨fuel' - 1, by omega⟩
        have hdrop : ∀ m, 0 < m → ((b :: bs).drop m).length ≤ bs.length := by
          intro m hm
          rw [List.length_drop, List.length_cons]
          omega
        rw [decodeReplaceFuel, decodeReplaceFuel]
        cases headUtf8 (b :: bs) with
        | some c =>
          have hle := hdrop c.utf8Size c.utf8Size_pos
          show c :: decodeReplaceFuel k _ = c :: decodeReplaceFuel k' _
          rw [ih ((b :: bs).drop c.utf8Size) k k' (by omega) (by omega) (by omega)]
        | none =>
          have hle := hdrop _ (malformedLength_pos (b :: bs))
          show REPLACEMENT :: decodeReplaceFuel k _ = REPLACEMENT :: decodeReplaceFuel k' _
          rw [ih ((b :: bs).drop (malformedLength (b :: bs))) k k' (by omega) (by omega) (by omega)]
  exact hall bs.length bs fuel bs.length (Nat.le_refl _) h (Nat.le_refl _)

theorem decodeReplaceFuel_of_decodeUtf8Fuel (fuel : Nat) (bs : Bytes) (s : List Char)
    (h : decodeUtf8Fuel fuel bs = some s) : decodeReplaceFuel fuel bs = s := by
  induction fuel generalizing bs s with
  | zero =>
    cases bs with
    | nil =>
      cases h
      rfl
    | cons b bs => cases h
  | succ fuel ih =>
    cases bs with
    | nil =>
      cases h
      rfl
    | cons b bs =>
      rw [decodeUtf8Fuel] at h
      rw [decodeReplaceFuel]
      split at h
      · cases h
      · next c hc =>
        rw [Option.map_eq_some_iff] at h
        obtain ⟨s, hs, rfl⟩ := h
        rw [hc]
        show c :: decodeReplaceFuel fuel _ = c :: s
        rw [ih _ _ hs]

/-- **Well-formed text decodes as itself.** -/
theorem decodeUtf8Replace_of_valid {bs : Bytes} {s : List Char} (h : decodeUtf8 bs = some s) :
    decodeUtf8Replace bs = s :=
  decodeReplaceFuel_of_decodeUtf8Fuel _ _ _ h

theorem replace_inj_of_valid {a b : Bytes} {s t : List Char} (ha : decodeUtf8 a = some s)
    (hb : decodeUtf8 b = some t) (h : decodeUtf8Replace a = decodeUtf8Replace b) : a = b := by
  rw [decodeUtf8Replace_of_valid ha, decodeUtf8Replace_of_valid hb] at h
  rw [← (decodeUtf8_eq_some_iff a s).mp ha, ← (decodeUtf8_eq_some_iff b t).mp hb, h]

/-- A sequence cut short is one replacement, bytes that begin nothing one each. -/
example : decodeUtf8Replace [0xE2, 0x82, 0x41, 0xFF, 0xFE] =
    [REPLACEMENT, 'A', REPLACEMENT, REPLACEMENT] := by decide

end Py
