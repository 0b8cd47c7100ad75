import Pyrealm.Pool.PyBytes

/-!
# Python text codecs

`bytes.decode("utf-8")` and `bytes.decode("utf-16le")`, strict; `none` is
`UnicodeDecodeError`.  A decoded `str` is the list of its code points.

* `decodeUtf8_eq_some_iff`: UTF-8 decoding inverts encoding, and accepts nothing else.
* `decodeUtf16le_encode`: UTF-16LE decoding inverts encoding.
* `leadWidth_encode`, `isTail_encode`: the lead byte tells how many bytes a character
  takes, and no other byte of a character can be taken for one.
* `encodeStr_eq_none_iff`: a `str` that may hold surrogates encodes unless it holds one;
  `encodeStr_inj`, `zero_mem_encodeStr`: what its encoding tells.
-/

namespace Py

/-! ## UTF-8 -/

/-- `s.encode("utf-8")` -/
def encodeUtf8 (s : List Char) : Bytes := s.flatMap String.utf8EncodeChar

/-- The character a byte string starts with, if it starts with the well-formed
encoding of one. -/
def headUtf8 (bs : Bytes) : Option Char := bs.toByteArray.utf8DecodeChar? 0

def decodeUtf8Fuel : Nat → Bytes → Option (List Char)
  | _, [] => some []
  | 0, _ :: _ => none
  | fuel + 1, b :: bs =>
    match headUtf8 (b :: bs) with
    | none => none
    | some c => (decodeUtf8Fuel fuel ((b :: bs).drop c.utf8Size)).map (c :: ·)

/-- `bs.decode("utf-8")`; every character takes a byte, so the length is fuel enough. -/
def decodeUtf8 (bs : Bytes) : Option (List Char) := decodeUtf8Fuel bs.length bs

theorem encodeUtf8_cons (c : Char) (s : List Char) :
    encodeUtf8 (c :: s) = String.utf8EncodeChar c ++ encodeUtf8 s := List.flatMap_cons

theorem encodeUtf8_append (s t : List Char) : encodeUtf8 (s ++ t) = encodeUtf8 s ++ encodeUtf8 t :=
  List.flatMap_append

theorem headUtf8_eq_some_iff (bs : Bytes) (c : Char) :
    headUtf8 bs = some c ↔ ∃ rest, bs = String.utf8EncodeChar c ++ rest := by
  constructor
  · intro h
    obtain ⟨l, hl⟩ := ByteArray.exists_of_utf8DecodeChar?_eq_some h
    refine ⟨l.data.toList, ?_⟩
    have hd := congrArg (fun x : ByteArray => x.data.toList) hl
    simpa using hd
  · rintro ⟨rest, rfl⟩
    rw [headUtf8, List.toByteArray_append, ByteArray.utf8DecodeChar?_utf8EncodeChar_append]

theorem decodeUtf8Fuel_encode (s : List Char) : ∀ fuel, (encodeUtf8 s).length ≤ fuel →
    decodeUtf8Fuel fuel (encodeUtf8 s) = some s := by
  induction s with
  | nil => intro fuel _; cases fuel <;> rfl
  | cons c s ih =>
    intro fuel hf
    have hpos := c.utf8Size_pos
    rw [encodeUtf8_cons, List.length_append, String.length_utf8EncodeChar] at hf
    obtain ⟨fuel, rfl⟩ : ∃ k, fuel = k + 1 := ⟨fuel - 1, by omega⟩
    have hhead : headUtf8 (encodeUtf8 (c :: s)) = some c :=
      (headUtf8_eq_some_iff _ _).mpr ⟨_, encodeUtf8_cons c s⟩
    have hdrop : (encodeUtf8 (c :: s)).drop c.utf8Size = encodeUtf8 s := by
      rw [encodeUtf8_cons, ← String.length_utf8EncodeChar, List.drop_left]
    have hne : encodeUtf8 (c :: s) ≠ [] := by
      intro h
      have hl := congrArg List.length h
      rw [encodeUtf8_cons, List.length_append, String.length_utf8EncodeChar] at hl
      simp at hl
      omega
    obtain ⟨b, bs, hb⟩ := List.exists_cons_of_ne_nil hne
    rw [hb] at hhead hdrop ⊢
    rw [decodeUtf8Fuel, hhead]
    simp only
    rw [hdrop, ih fuel (by omega)]
    rfl

theorem encode_of_decodeUtf8Fuel : ∀ (fuel : Nat) (bs : Bytes) (s : List Char),
    decodeUtf8Fuel fuel bs = some s → encodeUtf8 s = bs := by
  intro fuel
  induction fuel with
  | zero =>
    intro bs s h
    cases bs with
    | nil => cases h; rfl
    | cons b bs => cases h
  | succ fuel ih =>
    intro bs s h
    cases bs with
    | nil => cases h; rfl
    | cons b bs =>
      rw [decodeUtf8Fuel] at h
      split at h
      · cases h
      · next c hc =>
        rw [Option.map_eq_some_iff] at h
        obtain ⟨s, hs, rfl⟩ := h
        obtain ⟨rest, hrest⟩ := (headUtf8_eq_some_iff _ _).mp hc
        rw [encodeUtf8_cons, ih _ _ hs, hrest, ← String.length_utf8EncodeChar, List.drop_left]

/-- **UTF-8 decoding accepts exactly the encodings.** -/
theorem decodeUtf8_eq_some_iff (bs : Bytes) (s : List Char) :
    decodeUtf8 bs = some s ↔ encodeUtf8 s = bs := by
  constructor
  · exact encode_of_decodeUtf8Fuel _ bs s
  · rintro rfl
    exact decodeUtf8Fuel_encode s _ (Nat.le_refl _)

/-- Bytes of the character that starts with `lead`, for any lead byte. -/
def leadWidth (lead : Nat) : Nat :=
  if lead < 0x80 then 1 else if lead < 0xE0 then 2 else if lead < 0xF0 then 3 else 4

theorem leadWidth_pos (lead : Nat) : 0 < leadWidth lead := by
  unfold leadWidth
  split
  · omega
  · split
    · omega
    · split <;> omega

theorem leadWidth_encode (c : Char) (b : UInt8) (bs : Bytes)
    (h : String.utf8EncodeChar c = b :: bs) : leadWidth b.toNat = c.utf8Size := by
  rw [← String.length_utf8EncodeChar, h]
  simp only [String.utf8EncodeChar] at h
  have hb : ∀ n, n < 256 → (UInt8.ofNat n).toNat = n := fun n hn => by
    rw [UInt8.toNat_ofNat']; omega
  split at h
  · rw [List.cons.injEq] at h
    obtain ⟨rfl, rfl⟩ := h
    rw [hb _ (by omega), leadWidth, if_pos (by omega)]
    rfl
  · split at h
    · rw [List.cons.injEq] at h
      obtain ⟨rfl, rfl⟩ := h
      rw [hb _ (by omega), leadWidth, if_neg (by omega), if_pos (by omega)]
      rfl
    · split at h
      · rw [List.cons.injEq] at h
        obtain ⟨rfl, rfl⟩ := h
        rw [hb _ (by omega), leadWidth, if_neg (by omega), if_neg (by omega), if_pos (by omega)]
        rfl
      · rw [List.cons.injEq] at h
        obtain ⟨rfl, rfl⟩ := h
        rw [hb _ (by omega), leadWidth, if_neg (by omega), if_neg (by omega), if_neg (by omega)]
        rfl

/-- A byte that only continues a character. -/
def IsTail (b : UInt8) : Prop := 0x80 ≤ b.toNat ∧ b.toNat < 0xC0

/-- **UTF-8 synchronises itself**: the first byte of a character is no tail, the others are. -/
theorem isTail_encode (c : Char) (b : UInt8) (bs : Bytes) (h : String.utf8EncodeChar c = b :: bs) :
    ¬ IsTail b ∧ ∀ x ∈ bs, IsTail x := by
  have hb : ∀ n, n < 256 → (UInt8.ofNat n).toNat = n := fun n hn => by
    rw [UInt8.toNat_ofNat']; omega
  have htail : ∀ n, n < 64 → IsTail (UInt8.ofNat (n + 128)) := fun n hn => by
    rw [IsTail, hb _ (by omega)]
    omega
  have hlead : ∀ n, n < 256 → n < 0x80 ∨ 0xC0 ≤ n → ¬ IsTail (UInt8.ofNat n) := fun n hn hr => by
    rw [IsTail, hb _ hn]
    omega
  simp only [String.utf8EncodeChar] at h
  split at h
  · rw [List.cons.injEq] at h
    obtain ⟨rfl, rfl⟩ := h
    exact ⟨hlead _ (by omega) (by omega), by simp⟩
  · split at h
    · rw [List.cons.injEq] at h
      obtain ⟨rfl, rfl⟩ := h
      refine ⟨hlead _ (by omega) (by omega), ?_⟩
      rw [List.forall_mem_singleton]
      exact htail _ (by omega)
    · split at h
      · rw [List.cons.injEq] at h
        obtain ⟨rfl, rfl⟩ := h
        refine ⟨hlead _ (by omega) (by omega), ?_⟩
        rw [List.forall_mem_cons, List.forall_mem_singleton]
        exact ⟨htail _ (by omega), htail _ (by omega)⟩
      · rw [List.cons.injEq] at h
        obtain ⟨rfl, rfl⟩ := h
        refine ⟨hlead _ (by omega) (by omega), ?_⟩
        rw [List.forall_mem_cons, List.forall_mem_cons, List.forall_mem_singleton]
        exact ⟨htail _ (by omega), htail _ (by omega), htail _ (by omega)⟩

/-! ## UTF-16LE -/

def unit16 (n : Nat) : Bytes := [UInt8.ofNat (n % 256), UInt8.ofNat (n / 256)]

def encodeCharUtf16le (c : Char) : Bytes :=
  if c.toNat < 0x10000 then unit16 c.toNat
  else unit16 (0xD800 + (c.toNat - 0x10000) / 0x400) ++ unit16 (0xDC00 + (c.toNat - 0x10000) % 0x400)

/-- `s.encode("utf-16le")` -/
def encodeUtf16le (s : List Char) : Bytes := s.flatMap encodeCharUtf16le

/-- `bs.decode("utf-16le")`: an odd byte, a lone surrogate or a low surrogate
first is malformed. -/
def decodeUtf16le : Bytes → Option (List Char)
  | [] => some []
  | [_] => none
  | a :: b :: rest =>
    let u := a.toNat + 256 * b.toNat
    if u < 0xD800 ∨ 0xE000 ≤ u then (decodeUtf16le rest).map (Char.ofNat u :: ·)
    else if 0xDC00 ≤ u then none
    else match rest with
      | a' :: b' :: rest' =>
        let v := a'.toNat + 256 * b'.toNat
        if 0xDC00 ≤ v ∧ v < 0xE000 then
          (decodeUtf16le rest').map
            (Char.ofNat (0x10000 + (u - 0xD800) * 0x400 + (v - 0xDC00)) :: ·)
        else none
      | _ => none

theorem encodeUtf16le_cons (c : Char) (s : List Char) :
    encodeUtf16le (c :: s) = encodeCharUtf16le c ++ encodeUtf16le s := List.flatMap_cons

theorem unit16_value (n : Nat) (h : n < 0x10000) :
    (UInt8.ofNat (n % 256)).toNat + 256 * (UInt8.ofNat (n / 256)).toNat = n := by
  rw [UInt8.toNat_ofNat', UInt8.toNat_ofNat']
  omega

/-- The code points are those below 0x110000 that are no surrogates. -/
theorem char_range (c : Char) : c.toNat < 0xD800 ∨ 0xE000 ≤ c.toNat ∧ c.toNat < 0x110000 := by
  rcases c.valid with h | h
  · exact Or.inl h
  · exact Or.inr ⟨h.1, h.2⟩

theorem decodeUtf16le_encode (s : List Char) : decodeUtf16le (encodeUtf16le s) = some s := by
  induction s with
  | nil => rfl
  | cons c s ih =>
    have hr := char_range c
    rw [encodeUtf16le_cons, encodeCharUtf16le]
    split
    · next h =>
      rw [unit16, List.cons_append, List.cons_append, List.nil_append, decodeUtf16le.eq_def]
      simp only [unit16_value _ h]
      rw [if_pos (by omega), ih, Option.map_some, Char.ofNat_toNat]
    · next h =>
      simp only [unit16, List.cons_append, List.nil_append, decodeUtf16le]
      rw [unit16_value _ (by omega), unit16_value _ (by omega), if_neg (by omega),
        if_neg (by omega), if_pos (by omega), ih, Option.map_some,
        show 0x10000 + (0xD800 + (c.toNat - 0x10000) / 0x400 - 0xD800) * 0x400 +
          (0xDC00 + (c.toNat - 0x10000) % 0x400 - 0xDC00) = c.toNat by omega, Char.ofNat_toNat]

/-! ## Text that may hold surrogates -/

/-- A code point of a Python `str`. -/
abbrev CodePoint : Type := Fin 0x110000

def IsSurrogate (c : CodePoint) : Prop := 0xD800 ≤ c.val ∧ c.val < 0xE000

instance (c : CodePoint) : Decidable (IsSurrogate c) :=
  inferInstanceAs (Decidable (0xD800 ≤ c.val ∧ c.val < 0xE000))

def toChars : List CodePoint → Option (List Char)
  | [] => some []
  | c :: s => if IsSurrogate c then none else (toChars s).map (Char.ofNat c :: ·)

/-- `s.encode("utf-8")` of any `str`; `none` is `UnicodeEncodeError`. -/
def encodeStr (s : List CodePoint) : Option Bytes := (toChars s).map encodeUtf8

theorem toNat_ofNat_codePoint (c : CodePoint) (h : ¬ IsSurrogate c) : (Char.ofNat c).toNat = c.val := by
  have hv : Nat.isValidChar c.val := by
    unfold IsSurrogate at h
    show c.val < 0xD800 ∨ (0xDFFF < c.val ∧ c.val < 0x110000)
    omega
  rw [Char.ofNat, dif_pos hv]
  rfl

theorem toChars_eq_none_iff (s : List CodePoint) : toChars s = none ↔ ∃ c ∈ s, IsSurrogate c := by
  induction s with
  | nil => simp [toChars]
  | cons c s ih =>
    rw [toChars, List.exists_mem_cons_iff]
    split
    · next hc => exact ⟨fun _ => Or.inl hc, fun _ => rfl⟩
    · next hc => rw [Option.map_eq_none_iff, ih, or_iff_right hc]

theorem encodeStr_eq_none_iff (s : List CodePoint) : encodeStr s = none ↔ ∃ c ∈ s, IsSurrogate c := by
  rw [encodeStr, Option.map_eq_none_iff, toChars_eq_none_iff]

/-- The characters are the code points. -/
theorem map_toNat_of_toChars {s : List CodePoint} {t : List Char} (h : toChars s = some t) :
    t.map Char.toNat = s.map Fin.val := by
  induction s generalizing t with
  | nil =>
    cases h
    rfl
  | cons c s ih =>
    rw [toChars] at h
    split at h
    · cases h
    · next hc =>
      rw [Option.map_eq_some_iff] at h
      obtain ⟨t, ht, rfl⟩ := h
      rw [List.map_cons, List.map_cons, ih ht, toNat_ofNat_codePoint c hc]

theorem encodeStr_inj {s s' : List CodePoint} {bs : Bytes} (h : encodeStr s = some bs)
    (h' : encodeStr s' = some bs) : s = s' := by
  rw [encodeStr, Option.map_eq_some_iff] at h h'
  obtain ⟨t, ht, hbs⟩ := h
  obtain ⟨t', ht', hbs'⟩ := h'
  have hd := (decodeUtf8_eq_some_iff bs t).mpr hbs
  rw [(decodeUtf8_eq_some_iff bs t').mpr hbs', Option.some.injEq] at hd
  subst hd
  have hm := (map_toNat_of_toChars ht).symm.trans (map_toNat_of_toChars ht')
  exact List.map_injective_iff.mpr (fun _ _ => Fin.ext) hm

theorem zero_mem_utf8EncodeChar (c : Char) : 0 ∈ String.utf8EncodeChar c ↔ c.toNat = 0 := by
  have hpos : ∀ n, n < 256 → (0 = UInt8.ofNat n ↔ n = 0) := by
    intro n hn
    rw [← UInt8.toNat_inj, UInt8.toNat_ofNat', UInt8.toNat_zero]
    omega
  show 0 ∈ String.utf8EncodeChar c ↔ c.val.toNat = 0
  simp only [String.utf8EncodeChar]
  split
  · rw [List.mem_singleton, hpos _ (by omega)]
  · split
    · simp only [List.mem_cons, List.not_mem_nil, or_false]
      rw [hpos _ (by omega), hpos _ (by omega)]
      omega
    · split
      · simp only [List.mem_cons, List.not_mem_nil, or_false]
        rw [hpos _ (by omega), hpos _ (by omega), hpos _ (by omega)]
        omega
      · simp only [List.mem_cons, List.not_mem_nil, or_false]
        rw [hpos _ (by omega), hpos _ (by omega), hpos _ (by omega), hpos _ (by omega)]
        omega

/-- **The encoding has a zero byte exactly where the text has U+0000.** -/
theorem zero_mem_encodeStr {s : List CodePoint} {bs : Bytes} (h : encodeStr s = some bs) :
    0 ∈ bs ↔ 0 ∈ s := by
  rw [encodeStr, Option.map_eq_some_iff] at h
  obtain ⟨t, ht, rfl⟩ := h
  have hm := map_toNat_of_toChars ht
  constructor
  · intro h0
    obtain ⟨c, hc, h0⟩ := List.mem_flatMap.mp h0
    have hc' : 0 ∈ s.map Fin.val := by
      rw [← hm, ← (zero_mem_utf8EncodeChar c).mp h0]
      exact List.mem_map_of_mem hc
    obtain ⟨d, hd, hd0⟩ := List.mem_map.mp hc'
    rwa [show d = 0 from Fin.ext hd0] at hd
  · intro h0
    have hc : 0 ∈ t.map Char.toNat := by
      rw [hm]
      exact List.mem_map_of_mem h0
    obtain ⟨c, hc, hc0⟩ := List.mem_map.mp hc
    exact List.mem_flatMap.mpr ⟨c, hc, (zero_mem_utf8EncodeChar c).mpr hc0⟩

end Py
