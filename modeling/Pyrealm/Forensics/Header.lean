import Pyrealm.Forensics.Models

/-!
# `_parse_header`

    parseHeader data = .ok (some header)  ↔  Recognised data header   (parseHeader_eq_some_iff)

`parseHeader_ok`: no read of it can fail.  The two roots of a recognised file,
as the format describes them, are `activeRoot` and `inactiveRoot`
(`Recognised.activeTopRef`, `Recognised.inactiveTopRef`).  The header of a
non-streaming file depends on its first 24 bytes only (`recognised_take`).
-/

namespace Pyrealm

open Py

/-! ## Algorithm -/

/-- `2^64 - 1`: the first slot of a streaming file. -/
def NULL_TOP_REF : Nat := 0xFFFFFFFFFFFFFFFF

/-- The final `RealmHeader(...)` of `_parse_header`; reads the reserved byte. -/
def makeHeader (data : Bytes) (topRefs formatSlots : Nat × Nat)
    (flags activeSlot activeTopRef inactiveTopRef : Nat) (streaming : Bool) :
    Except Exc (Option RealmHeader) := do
  let reserved ← index data 22
  .ok (some {
    topRefs, formatSlots, reserved, flags, activeSlot, activeTopRef, inactiveTopRef, streaming })

def parseHeader (data : Bytes) : Except Exc (Option RealmHeader) :=
  if data.length < FILE_HEADER_SIZE ∨ slice data 16 20 ≠ REALM_MAGIC then .ok none
  else do
    let topRefs ← unpackQQ data 0
    let slot0 ← index data 20
    let slot1 ← index data 21
    let flags ← index data 23
    let activeSlot := flags &&& 1
    let streaming := activeSlot == 0 && topRefs.1 == NULL_TOP_REF
    if streaming then
      if data.length < FILE_HEADER_SIZE + 16 then .ok none
      else do
        let footer ← unpackQQ data (data.length - 16)
        if footer.2 ≠ STREAMING_COOKIE then .ok none
        else makeHeader data topRefs (slot0, slot1) flags activeSlot footer.1 0 streaming
    else do
      let activeTopRef ← tupleItem [topRefs.1, topRefs.2] activeSlot
      let inactiveTopRef ← tupleItem [topRefs.1, topRefs.2] (activeSlot ^^^ 1)
      makeHeader data topRefs (slot0, slot1) flags activeSlot activeTopRef
        (if inactiveTopRef = NULL_TOP_REF then 0 else inactiveTopRef) streaming

/-! ## The format -/

/-- The slot selected by bit 0 of byte 23. -/
def selectedSlot (data : Bytes) : Nat := byteAt data 23 % 2

/-- The top reference of slot `s`. -/
def slotRef (data : Bytes) (s : Nat) : Nat := u64 data (8 * s)

def Streaming (data : Bytes) : Prop := selectedSlot data = 0 ∧ slotRef data 0 = NULL_TOP_REF

instance (data : Bytes) : Decidable (Streaming data) :=
  inferInstanceAs (Decidable (_ ∧ _))

/-- The root of the committed tree: the selected slot, or a streaming file's footer. -/
def activeRoot (data : Bytes) : Nat :=
  if Streaming data then u64 data (data.length - 16) else slotRef data (selectedSlot data)

/-- The root in the slot that is not selected; a streaming file has none. -/
def inactiveRoot (data : Bytes) : Option Nat :=
  if Streaming data then none else some (slotRef data (1 - selectedSlot data))

/-- The field of a header that holds the second root: no root and the unused
slot value are written 0. -/
def inactiveField (root : Option Nat) : Nat :=
  match root with
  | none => 0
  | some r => if r = NULL_TOP_REF then 0 else r

/-- `header` is the header of `data`, with its identifying invariants present. -/
structure Recognised (data : Bytes) (header : RealmHeader) : Prop where
  length_ge : 24 ≤ data.length
  magic : slice data 16 20 = REALM_MAGIC
  footer : Streaming data → 40 ≤ data.length ∧ u64 data (data.length - 8) = STREAMING_COOKIE
  eq : header = {
    topRefs := (slotRef data 0, slotRef data 1)
    formatSlots := (byteAt data 20, byteAt data 21)
    reserved := byteAt data 22
    flags := byteAt data 23
    activeSlot := selectedSlot data
    activeTopRef := activeRoot data
    inactiveTopRef := inactiveField (inactiveRoot data)
    streaming := decide (Streaming data) }

/-! ## Lemmas -/

theorem selectedSlot_lt (data : Bytes) : selectedSlot data < 2 := Nat.mod_lt _ (by omega)

theorem makeHeader_ok (data : Bytes) (topRefs formatSlots : Nat × Nat) (flags slot a b : Nat)
    (streaming : Bool) (h : 24 ≤ data.length) :
    makeHeader data topRefs formatSlots flags slot a b streaming =
      .ok (some ⟨topRefs, formatSlots, byteAt data 22, flags, slot, a, b, streaming⟩) := by
  rw [makeHeader, index_eq_byteAt data 22 (by omega)]
  rfl

theorem tupleItem_slot (data : Bytes) (s : Nat) (h : s < 2) :
    tupleItem [slotRef data 0, slotRef data 1] s = .ok (slotRef data s) := by
  obtain rfl | rfl : s = 0 ∨ s = 1 := by omega
  · rfl
  · rfl

theorem slot_xor_one (s : Nat) (h : s < 2) : s ^^^ 1 = 1 - s := by
  obtain rfl | rfl : s = 0 ∨ s = 1 := by omega
  · rfl
  · rfl

/-- The reads of `_parse_header` behind its length check, all inside the data. -/
theorem parseHeader_eq (data : Bytes) (h : 24 ≤ data.length) (hm : slice data 16 20 = REALM_MAGIC) :
    parseHeader data =
      if Streaming data ∧
          (data.length < 40 ∨ u64 data (data.length - 8) ≠ STREAMING_COOKIE) then .ok none
      else .ok (some ⟨(slotRef data 0, slotRef data 1), (byteAt data 20, byteAt data 21),
        byteAt data 22, byteAt data 23, selectedSlot data, activeRoot data,
        inactiveField (inactiveRoot data), decide (Streaming data)⟩) := by
  have hslot : byteAt data 23 &&& 1 = selectedSlot data := Nat.and_one_is_mod _
  have hstr : (selectedSlot data == 0 && slotRef data 0 == NULL_TOP_REF) = decide (Streaming data) := by
    rw [Bool.eq_iff_iff, decide_eq_true_iff, Streaming]
    simp
  have h0 : (u64 data 0, u64 data (0 + 8)) = (slotRef data 0, slotRef data 1) := rfl
  have hlt := selectedSlot_lt data
  rw [parseHeader, if_neg (by rw [hm]; simp [FILE_HEADER_SIZE]; omega),
    unpackQQ_of_le data 0 (by omega), h0, index_eq_byteAt data 20 (by omega),
    index_eq_byteAt data 21 (by omega), index_eq_byteAt data 23 (by omega)]
  simp only [ok_bind, hslot, hstr, decide_eq_true_eq, FILE_HEADER_SIZE]
  by_cases hs : Streaming data
  · rw [if_pos hs]
    by_cases h40 : data.length < 40
    · rw [if_pos h40, if_pos ⟨hs, Or.inl h40⟩]
    · rw [if_neg h40, unpackQQ_of_le data _ (by omega),
        show data.length - 16 + 8 = data.length - 8 by omega]
      simp only [ok_bind]
      by_cases hc : u64 data (data.length - 8) ≠ STREAMING_COOKIE
      · rw [if_pos hc, if_pos ⟨hs, Or.inr hc⟩]
      · rw [if_neg hc, makeHeader_ok _ _ _ _ _ _ _ _ h, if_neg (by tauto), activeRoot, if_pos hs,
          inactiveRoot, if_pos hs]
        rfl
  · rw [if_neg hs, if_neg (fun hf => hs hf.1), slot_xor_one _ hlt, tupleItem_slot _ _ hlt,
      tupleItem_slot _ _ (by omega)]
    simp only [ok_bind]
    rw [makeHeader_ok _ _ _ _ _ _ _ _ h, activeRoot, if_neg hs, inactiveRoot, if_neg hs]
    rfl

theorem parseHeader_unrecognised (data : Bytes)
    (h : ¬ (24 ≤ data.length ∧ slice data 16 20 = REALM_MAGIC)) : parseHeader data = .ok none := by
  rw [parseHeader, if_pos]
  by_cases hl : data.length < 24
  · exact Or.inl hl
  · exact Or.inr fun hm => h ⟨by omega, hm⟩

/-- **No read of the header parser leaves the data.** -/
theorem parseHeader_ok (data : Bytes) : ∃ header, parseHeader data = .ok header := by
  by_cases h : 24 ≤ data.length ∧ slice data 16 20 = REALM_MAGIC
  · rw [parseHeader_eq data h.1 h.2]
    split
    · exact ⟨_, rfl⟩
    · exact ⟨_, rfl⟩
  · exact ⟨_, parseHeader_unrecognised data h⟩

theorem parseHeader_eq_some_iff (data : Bytes) (header : RealmHeader) :
    parseHeader data = .ok (some header) ↔ Recognised data header := by
  by_cases h : 24 ≤ data.length ∧ slice data 16 20 = REALM_MAGIC
  · rw [parseHeader_eq data h.1 h.2]
    constructor
    · intro he
      split at he
      · cases he
      · next hf =>
        refine ⟨h.1, h.2, fun hs => ⟨?_, ?_⟩, ?_⟩
        · apply Classical.byContradiction
          intro hl
          exact hf ⟨hs, Or.inl (by omega)⟩
        · apply Classical.byContradiction
          intro hc
          exact hf ⟨hs, Or.inr hc⟩
        · simpa using he.symm
    · intro hr
      rw [if_neg, hr.eq]
      rintro ⟨hs, hl | hc⟩
      · have := (hr.footer hs).1
        omega
      · exact hc (hr.footer hs).2
  · rw [parseHeader_unrecognised data h]
    constructor
    · intro he; cases he
    · intro hr; exact absurd ⟨hr.length_ge, hr.magic⟩ h

section
variable {data : Bytes} {header : RealmHeader} (h : Recognised data header)
include h

theorem Recognised.activeTopRef : header.activeTopRef = activeRoot data := by
  rw [h.eq]

theorem Recognised.inactiveTopRef : header.inactiveTopRef = inactiveField (inactiveRoot data) := by
  rw [h.eq]

theorem Recognised.streaming_iff : header.streaming = true ↔ Streaming data := by
  rw [h.eq]
  exact decide_eq_true_iff

theorem Recognised.activeSlot : header.activeSlot = selectedSlot data := by
  rw [h.eq]

/-! ## Truncation -/

/-- The header of a non-streaming file depends on its first 24 bytes only. -/
theorem Recognised.agree (hs : header.streaming = false) {data' : Bytes} (ha : Agree data data' 0 24) :
    Recognised data' header := by
  have hbyte : ∀ i, i < 24 → byteAt data' i = byteAt data i := fun i hi =>
    ha.byteAt (Nat.zero_le i) hi
  have hslot : ∀ s, s < 2 → slotRef data' s = slotRef data s := by
    intro s hs'
    simp only [slotRef, u64]
    rw [ha.slice (Nat.zero_le _) (by omega)]
  have hsel : selectedSlot data' = selectedSlot data := by
    simp only [selectedSlot]
    rw [hbyte 23 (by omega)]
  have hns : ¬ Streaming data := by
    rw [← h.streaming_iff, hs]
    exact Bool.false_ne_true
  have hns' : ¬ Streaming data' := by
    rw [Streaming, hsel, hslot 0 (by omega)]
    exact hns
  have hlt := selectedSlot_lt data
  refine ⟨ha.le, ?_, fun hs' => absurd hs' hns', ?_⟩
  · rw [ha.slice (Nat.zero_le 16) (by omega), h.magic]
  · rw [h.eq]
    simp only [activeRoot, inactiveRoot, hns, hns', if_false, hsel, hslot 0 (by omega),
      hslot 1 (by omega), hslot (selectedSlot data) hlt, hslot (1 - selectedSlot data) (by omega),
      hbyte 20 (by omega), hbyte 21 (by omega), hbyte 22 (by omega), hbyte 23 (by omega)]

/-- The header of a non-streaming file is that of any prefix that holds it. -/
theorem recognised_take (hs : header.streaming = false) (n : Nat) (hn : 24 ≤ n)
    (hlen : n ≤ data.length) : Recognised (data.take n) header :=
  h.agree hs (agree_take data n 0 24 hn hlen)

end

end Pyrealm
