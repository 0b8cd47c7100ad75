import Pyrealm.Pool.Layout
import Pyrealm.Forensics.Rewrites
import Pyrealm.Forensics.TextRuns

/-!
# A database written out and analysed

A database as its author sees it: arrays that hold bytes, arrays that refer to
others by number, and free space with whatever was left there (`Database`).
`Database.encode` writes the file.

    image_report: the analysis of `d.encode` lists every array of `d`, with its
    layout, its payload, its references, and the label that the graph of `d`
    gives it; whatever else it lists is an orphan.

The bytes in payloads and in free space are arbitrary: text that looks like an
array header is listed, and changes nothing for the arrays of `d`.
-/

namespace Pyrealm

open Py

/-! ## Databases -/

/-- An element of a reference array. -/
inductive Slot where
  | null
  /-- an integer stored inline -/
  | tagged (n : Nat)
  /-- the array with this number -/
  | child (i : Nat)
deriving DecidableEq, Repr

/-- What a file consists of behind its header. -/
inductive Item where
  | refs (flags : UInt8) (slots : List Slot)
  | plain (flags : UInt8) (count : Nat) (payload : Bytes)
  | free (bytes : Bytes)
deriving DecidableEq, Repr

def Item.isArray : Item → Bool
  | .free _ => false
  | _ => true

def Item.flags : Item → UInt8
  | .refs flags _ => flags
  | .plain flags _ _ => flags
  | .free _ => 0

/-- The number of elements. -/
def Item.count : Item → Nat
  | .refs _ slots => slots.length
  | .plain _ count _ => count
  | .free _ => 0

/-- Bytes behind the array header. -/
def Item.payloadSize : Item → Nat
  | .refs flags slots => roundUp8 (slots.length * (widthOf flags.toNat / 8))
  | .plain _ _ payload => payload.length
  | .free _ => 0

def Item.size : Item → Nat
  | .free bytes => bytes.length
  | item => ARRAY_HEADER_SIZE + item.payloadSize

/-- Where item `i` begins. -/
def offsetOf (items : List Item) (i : Nat) : Nat :=
  FILE_HEADER_SIZE + blockStart (items.map Item.size) i

/-- Number `i` is an array. -/
def ArrayNumber (items : List Item) (i : Nat) : Prop :=
  ∃ item, items[i]? = some item ∧ item.isArray = true

instance (items : List Item) (i : Nat) : Decidable (ArrayNumber items i) :=
  decidable_of_iff (items[i]?.map Item.isArray = some true) Option.map_eq_some_iff

/-- The arrays that an item refers to, in element order. -/
def Item.children : Item → List Nat
  | .refs _ slots => slots.filterMap fun slot => match slot with
      | .child i => some i
      | _ => none
  | _ => []

/-- The integer an element is written as. -/
def Slot.value (items : List Item) : Slot → Nat
  | .null => 0
  | .tagged n => 2 * n + 1
  | .child i => offsetOf items i

/-- The flags of an array whose elements are references of whole bytes. -/
def RefFlags (flags : UInt8) : Prop :=
  flags.toNat &&& 0x40 ≠ 0 ∧ widthOf flags.toNat ∈ [8, 16, 32, 64] ∧ schemeOf flags.toNat = 0

instance (flags : UInt8) : Decidable (RefFlags flags) := inferInstanceAs (Decidable (_ ∧ _ ∧ _))

/-- What the format asks of an item. -/
def Item.Valid (items : List Item) : Item → Prop
  | .refs flags slots => RefFlags flags ∧ slots.length < 2 ^ 24 ∧
      (∀ slot ∈ slots, slot.value items < 2 ^ widthOf flags.toNat) ∧
      ∀ i ∈ (Item.refs flags slots).children, ArrayNumber items i
  | .plain flags count payload => ¬ RefFlags flags ∧ count < 2 ^ 24 ∧
      (contentSize (schemeOf flags.toNat) (widthOf flags.toNat) count).map roundUp8 = some payload.length
  | .free bytes => bytes.length % 8 = 0

instance (items : List Item) : DecidablePred (Item.Valid items)
  | .refs _ _ => inferInstanceAs (Decidable (_ ∧ _ ∧ _ ∧ _))
  | .plain _ _ _ => inferInstanceAs (Decidable (_ ∧ _ ∧ _))
  | .free _ => inferInstanceAs (Decidable (_ = _))

structure Database where
  items : List Item
  /-- the number of the root of the committed tree -/
  active : Nat
  /-- the root of the tree before, if it is kept -/
  inactive : Option Nat
  /-- the committed root is in slot 1 -/
  second : Bool
  formatSlots : UInt8 × UInt8
  reserved : UInt8
  valid : ∀ item ∈ items, item.Valid items
  active_array : ArrayNumber items active
  inactive_array : ∀ i, inactive = some i → ArrayNumber items i
  addressable : offsetOf items items.length < 2 ^ 64

def Database.offset (d : Database) (i : Nat) : Nat := offsetOf d.items i

/-- Array `i` refers to array `j`. -/
def Database.Child (d : Database) (i j : Nat) : Prop :=
  ∃ item, d.items[i]? = some item ∧ j ∈ item.children

/-- Array `i` is on a path from the root. -/
def Database.InTree (d : Database) (root : Option Nat) (i : Nat) : Prop :=
  ∃ r, root = some r ∧ Worklist.Path d.Child r i

open Classical in
/-- The label of array `i`, by the two trees. -/
noncomputable def Database.label (d : Database) (i : Nat) : Reachability :=
  if d.InTree (some d.active) i then if d.InTree d.inactive i then .shared else .active
  else if d.InTree d.inactive i then .inactive else .orphan

/-! ## Files -/

/-- Padded to a multiple of 8 bytes. -/
def pad8 (values : Bytes) : Bytes :=
  values ++ List.replicate (roundUp8 values.length - values.length) 0

/-- An array as the format writes it: `array` of the tests. -/
def array (flags : UInt8) (values : Bytes) (count : Nat) : Bytes :=
  ARRAY_SIGNATURE ++ [flags] ++ toBig24 count ++ pad8 values

/-- The elements of an array. -/
def Item.values (items : List Item) : Item → Bytes
  | .refs flags slots => slots.flatMap fun slot => toLittle (widthOf flags.toNat / 8) (slot.value items)
  | .plain _ _ payload => payload
  | .free _ => []

def Item.encode (items : List Item) : Item → Bytes
  | .free bytes => bytes
  | item => array item.flags (item.values items) item.count

/-- A root as it is written: 0 is no root. -/
def Database.rootRef (d : Database) : Option Nat → Nat
  | none => 0
  | some i => d.offset i

def Database.topRefs (d : Database) : Nat × Nat :=
  if d.second then (d.rootRef d.inactive, d.offset d.active)
  else (d.offset d.active, d.rootRef d.inactive)

def Database.header (d : Database) : Bytes :=
  toLittle 8 d.topRefs.1 ++ toLittle 8 d.topRefs.2 ++ REALM_MAGIC ++
    [d.formatSlots.1, d.formatSlots.2, d.reserved, if d.second then 1 else 0]

def Database.encode (d : Database) : Bytes := d.header ++ d.items.flatMap (Item.encode d.items)

/-! ## Reading an array back -/

theorem roundUp8_mod (n : Nat) : roundUp8 n % 8 = 0 := Nat.mul_mod_left _ _

theorem roundUp8_of_mod {n : Nat} (h : n % 8 = 0) : roundUp8 n = n := by
  unfold roundUp8
  omega

@[simp] theorem length_pad8 (values : Bytes) : (pad8 values).length = roundUp8 values.length := by
  have h := le_roundUp8 values.length
  rw [pad8, List.length_append, List.length_replicate]
  omega

@[simp] theorem length_array (flags : UInt8) (values : Bytes) (count : Nat) :
    (array flags values count).length = 8 + roundUp8 values.length := by
  rw [array, List.length_append, length_pad8]
  rfl

/-- **What `array` writes, the scanner finds.** -/
theorem isArray_of_block {data : Bytes} {o : Nat} {flags : UInt8} {values : Bytes} {count n : Nat}
    (hge : 24 ≤ o) (hal : o % 8 = 0)
    (hblock : slice data o (o + (8 + roundUp8 values.length)) = array flags values count)
    (hcount : count < 2 ^ 24)
    (hsize : contentSize (schemeOf flags.toNat) (widthOf flags.toNat) count = some n)
    (hn : roundUp8 n = roundUp8 values.length) :
    IsArray data o (makeNode o flags.toNat count (8 + roundUp8 n) (roundUp8 n)
      (widthOf flags.toNat)) ∧
    slice data (o + 8) (o + 8 + roundUp8 n) = pad8 values := by
  have hlen := congrArg List.length hblock
  rw [length_slice, length_array] at hlen
  have hin : ∀ i j, j ≤ 8 + roundUp8 values.length →
      slice data (o + i) (o + j) = slice (array flags values count) i j := by
    intro i j hj
    rw [← hblock, slice_slice _ _ _ _ _ (by omega)]
  have hflags : flagsAt data o = flags.toNat := by
    have e := congrArg (fun xs : Bytes => xs[0]?) (hin 4 5 (by omega))
    simp only [getElem?_slice, Nat.add_zero, Nat.lt_succ_self, if_true] at e
    rw [flagsAt, byteAt, List.getD_eq_getElem?_getD, e]
    rfl
  have hcnt : countAt data o = count := by
    rw [countAt, hin 5 8 (by omega)]
    exact fromBig_toBig24 hcount
  refine ⟨⟨hge, hal, hin 0 4 (by omega), ⟨n, ?_, ?_⟩, ?_⟩, ?_⟩
  · rw [hflags, hcnt, hsize]
  · rw [hflags, hcnt]
  · show o + (8 + roundUp8 n) ≤ data.length
    omega
  · rw [hn, Nat.add_assoc, hin 8 _ (Nat.le_refl _), array, slice]
    have hhead : (ARRAY_SIGNATURE ++ [flags] ++ toBig24 count).length = 8 := rfl
    rw [List.take_of_length_le (by rw [List.length_append, length_pad8, hhead]), ← hhead,
      List.drop_left]

/-! ## Items in the file -/

/-- The array at `o` that an item is. -/
def Item.node (item : Item) (o : Nat) : ArrayNode :=
  makeNode o item.flags.toNat item.count item.size item.payloadSize (widthOf item.flags.toNat)

theorem RefFlags.width_eq {flags : UInt8} (h : RefFlags flags) :
    widthOf flags.toNat = 8 * (widthOf flags.toNat / 8) := by
  have hw := h.2.1
  simp only [List.mem_cons, List.not_mem_nil, or_false] at hw
  omega

theorem length_refValues (items : List Item) (flags : UInt8) (slots : List Slot) :
    ((Item.refs flags slots).values items).length = slots.length * (widthOf flags.toNat / 8) := by
  simp only [Item.values, List.length_flatMap, length_toLittle, List.map_const',
    List.sum_replicate_nat]

section
variable {items : List Item} {item : Item} (h : item.Valid items)
include h

theorem Item.Valid.payloadSize (ha : item.isArray = true) : ∃ n,
    contentSize (schemeOf item.flags.toNat) (widthOf item.flags.toNat) item.count = some n ∧
    roundUp8 n = item.payloadSize ∧ roundUp8 (item.values items).length = item.payloadSize := by
  cases item with
  | refs flags slots =>
    obtain ⟨hflags, -, -⟩ := h
    have hw := hflags.width_eq
    refine ⟨slots.length * (widthOf flags.toNat / 8), ?_, rfl, ?_⟩
    · have hmul : slots.length * widthOf flags.toNat = 8 * (slots.length * (widthOf flags.toNat / 8)) := by
        rw [Nat.mul_left_comm, ← hw]
      show contentSize (schemeOf flags.toNat) (widthOf flags.toNat) slots.length = _
      rw [contentSize, if_pos hflags.2.2, hmul, Option.some.injEq]
      omega
    · rw [length_refValues]
      rfl
  | plain flags count payload =>
    obtain ⟨-, -, hsize⟩ := h
    rw [Option.map_eq_some_iff] at hsize
    obtain ⟨n, hn, hlen⟩ := hsize
    refine ⟨n, hn, hlen, ?_⟩
    show roundUp8 payload.length = payload.length
    rw [← hlen, roundUp8_of_mod (roundUp8_mod n)]
  | free bytes => cases ha

theorem Item.Valid.count_lt : item.count < 2 ^ 24 := by
  cases item with
  | refs flags slots => exact h.2.1
  | plain flags count payload => exact h.2.1
  | free bytes => exact Nat.pow_pos (by omega)

theorem Item.Valid.length_encode : (item.encode items).length = item.size := by
  cases item with
  | refs flags slots =>
    obtain ⟨_, -, -, hv⟩ := h.payloadSize rfl
    exact (length_array _ _ _).trans (congrArg (8 + ·) hv)
  | plain flags count payload =>
    obtain ⟨_, -, -, hv⟩ := h.payloadSize rfl
    exact (length_array _ _ _).trans (congrArg (8 + ·) hv)
  | free bytes => rfl

theorem Item.Valid.size_mod : 8 ∣ item.size := by
  rw [Nat.dvd_iff_mod_eq_zero]
  cases item with
  | refs flags slots =>
    have hm := roundUp8_mod (slots.length * (widthOf flags.toNat / 8))
    show (8 + roundUp8 (slots.length * (widthOf flags.toNat / 8))) % 8 = 0
    omega
  | plain flags count payload =>
    obtain ⟨n, -, hn, -⟩ := h.payloadSize rfl
    have hm := roundUp8_mod n
    have hp : (Item.plain flags count payload).payloadSize = payload.length := rfl
    show (8 + payload.length) % 8 = 0
    omega
  | free bytes => exact h

end

theorem Item.size_of_isArray {item : Item} (h : item.isArray = true) : item.size = 8 + item.payloadSize := by
  cases item with
  | refs flags slots => rfl
  | plain flags count payload => rfl
  | free bytes => cases h

theorem Item.encode_of_isArray {item : Item} (h : item.isArray = true) (items : List Item) :
    item.encode items = array item.flags (item.values items) item.count := by
  cases item with
  | refs flags slots => rfl
  | plain flags count payload => rfl
  | free bytes => cases h

section
variable (d : Database)

theorem Database.length_header : d.header.length = 24 := by
  simp only [Database.header, List.length_append, length_toLittle]
  rfl

theorem Database.map_length_encode :
    (d.items.map (Item.encode d.items)).map List.length = d.items.map Item.size := by
  rw [List.map_map]
  exact List.map_congr_left fun item hitem => (d.valid item hitem).length_encode

theorem Database.offset_mod (i : Nat) : d.offset i % 8 = 0 := by
  have hdvd : 8 ∣ blockStart (d.items.map Item.size) i := by
    apply dvd_blockStart
    intro size hsize
    obtain ⟨item, hitem, rfl⟩ := List.mem_map.mp hsize
    exact (d.valid item hitem).size_mod
  rw [Database.offset, offsetOf, FILE_HEADER_SIZE]
  omega

variable {d} {i : Nat} {item : Item} (hi : d.items[i]? = some item)
include hi

theorem Database.valid_at : item.Valid d.items := d.valid item (List.mem_of_getElem? hi)

theorem Database.offset_add_size_le : d.offset i + item.size ≤ offsetOf d.items d.items.length := by
  obtain ⟨hlt, rfl⟩ := List.getElem?_eq_some_iff.mp hi
  have h := blockStart_add_le (d.items.map Item.size) (i := i) (by rwa [List.length_map])
  have hend := blockStart_length (d.items.map Item.size)
  rw [List.length_map] at hend
  rw [List.getElem_map] at h
  rw [Database.offset, offsetOf, offsetOf, hend]
  omega

/-- An item is read back at its offset. -/
theorem Database.slice_item : slice d.encode (d.offset i) (d.offset i + item.size) =
    item.encode d.items := by
  obtain ⟨hlt, rfl⟩ := List.getElem?_eq_some_iff.mp hi
  have hblock := slice_flatten (d.header :: d.items.map (Item.encode d.items)) (i := i + 1)
    (by simpa using hlt)
  have hstart : blockStart ((d.header :: d.items.map (Item.encode d.items)).map List.length) (i + 1) =
      d.offset i := by
    rw [List.map_cons, blockStart_cons, d.length_header, d.map_length_encode]
    rfl
  rwa [hstart, List.getElem_cons_succ, List.getElem_map, (d.valid_at hi).length_encode,
    List.flatten_cons, ← List.flatMap_def] at hblock

/-- **Every array of the database is an array of the file**, with its payload. -/
theorem Database.isArray_at (ha : item.isArray = true) :
    IsArray d.encode (d.offset i) (item.node (d.offset i)) ∧
      payloadOf d.encode (item.node (d.offset i)) = pad8 (item.values d.items) := by
  have hvalid := d.valid_at hi
  obtain ⟨n, hn, hp, hv⟩ := hvalid.payloadSize ha
  have hsize := Item.size_of_isArray ha
  have hge : 24 ≤ d.offset i := Nat.le_add_right _ _
  have hslice := d.slice_item hi
  rw [Item.encode_of_isArray ha, hsize, ← hv] at hslice
  obtain ⟨h1, h2⟩ := isArray_of_block hge (d.offset_mod i) hslice hvalid.count_lt hn (hp.trans hv.symm)
  rw [hp, ← hsize] at h1
  rw [hp] at h2
  exact ⟨h1, h2⟩

end

/-! ## The header -/

theorem Database.offset_lt (d : Database) {i : Nat} (h : ArrayNumber d.items i) :
    d.offset i + 8 < 2 ^ 64 := by
  obtain ⟨item, hi, ha⟩ := h
  have hle := d.offset_add_size_le hi
  have hlt := d.addressable
  rw [Item.size_of_isArray ha] at hle
  omega

theorem Database.rootRef_lt (d : Database) : d.rootRef d.inactive + 8 < 2 ^ 64 := by
  cases h : d.inactive with
  | none =>
    rw [Database.rootRef]
    omega
  | some i => exact d.offset_lt (d.inactive_array i h)

/-- The header that the scanner reads. -/
def Database.realmHeader (d : Database) : RealmHeader where
  topRefs := d.topRefs
  formatSlots := (d.formatSlots.1.toNat, d.formatSlots.2.toNat)
  reserved := d.reserved.toNat
  flags := if d.second then 1 else 0
  activeSlot := if d.second then 1 else 0
  activeTopRef := d.offset d.active
  inactiveTopRef := d.rootRef d.inactive
  streaming := false

theorem Database.recognised_header (d : Database) : Recognised d.header d.realmHeader := by
  have hactive := d.offset_lt d.active_array
  have hinactive := d.rootRef_lt
  have h0 : slotRef d.header 0 = d.topRefs.1 := by
    show fromLittle (toLittle 8 d.topRefs.1) = _
    apply fromLittle_toLittle
    unfold Database.topRefs
    split <;> simp only <;> omega
  have h1 : slotRef d.header 1 = d.topRefs.2 := by
    show fromLittle (toLittle 8 d.topRefs.2) = _
    apply fromLittle_toLittle
    unfold Database.topRefs
    split <;> simp only <;> omega
  have hslot : selectedSlot d.header = if d.second then 1 else 0 := by
    show (if d.second then (1 : UInt8) else 0).toNat % 2 = _
    cases d.second <;> rfl
  have hns : ¬ Streaming d.header := by
    rintro ⟨hs, hnull⟩
    rw [hslot] at hs
    rw [h0, Database.topRefs, NULL_TOP_REF] at hnull
    cases hsec : d.second with
    | true =>
      rw [hsec] at hs
      cases hs
    | false =>
      rw [hsec, if_neg Bool.false_ne_true] at hnull
      simp only at hnull
      omega
  refine ⟨?_, rfl, fun hs => absurd hs hns, ?_⟩
  · rw [d.length_header]
  have hnull : d.rootRef d.inactive ≠ NULL_TOP_REF := by
    rw [NULL_TOP_REF]
    omega
  rw [activeRoot, if_neg hns, inactiveRoot, if_neg hns, hslot, h0, h1, decide_eq_false hns]
  have hflags : byteAt d.header 23 = if d.second then 1 else 0 := by
    show (if d.second then (1 : UInt8) else 0).toNat = _
    cases d.second <;> rfl
  rw [hflags]
  cases hsec : d.second with
  | true =>
    have htop : d.topRefs = (d.rootRef d.inactive, d.offset d.active) := by rw [Database.topRefs, hsec]; rfl
    simp only [if_true, Nat.sub_self, h0, h1, htop, inactiveField, if_neg hnull]
    rw [Database.realmHeader, hsec, htop]
    rfl
  | false =>
    have htop : d.topRefs = (d.offset d.active, d.rootRef d.inactive) := by rw [Database.topRefs, hsec]; rfl
    simp only [Bool.false_eq_true, if_false, Nat.sub_zero, h0, h1, htop, inactiveField, if_neg hnull]
    rw [Database.realmHeader, hsec, htop]
    rfl

theorem Database.parseHeader_encode (d : Database) :
    parseHeader d.encode = .ok (some d.realmHeader) := by
  rw [parseHeader_eq_some_iff]
  refine d.recognised_header.agree rfl ⟨?_, ?_⟩
  · rw [Database.encode, List.length_append, d.length_header]
    omega
  · rw [Database.encode, slice, slice, ← d.length_header, List.take_left, List.take_length]

/-! ## The graph -/

section
variable {d : Database}

theorem Database.offset_inj {i j : Nat} (hi : ArrayNumber d.items i) (hj : ArrayNumber d.items j)
    (h : d.offset i = d.offset j) : i = j := by
  have hne : ∀ {a b : Nat}, ArrayNumber d.items a → a < b → d.offset a ≠ d.offset b := by
    rintro a b ⟨item, ha, harr⟩ hab
    obtain ⟨hlt, rfl⟩ := List.getElem?_eq_some_iff.mp ha
    have hsize := Item.size_of_isArray harr
    have hn := blockStart_ne (d.items.map Item.size) (i := a) (j := b)
      (by rwa [List.length_map]) (by rw [List.getElem_map]; omega) hab
    rw [Database.offset, Database.offset, offsetOf, offsetOf]
    omega
  rcases Nat.lt_trichotomy i j with hij | rfl | hij
  · exact absurd h (hne hi hij)
  · rfl
  · exact absurd h.symm (hne hj hij)

theorem Database.scanned_offset {i : Nat} (h : ArrayNumber d.items i) :
    d.offset i ∈ scanned d.encode := by
  obtain ⟨item, hi, ha⟩ := h
  exact (mem_scanned _ _).mpr ⟨_, (d.isArray_at hi ha).1⟩

theorem slice_pad8 (values : Bytes) {a b : Nat} (h : b ≤ values.length) :
    slice (pad8 values) a b = slice values a b := by
  rw [slice, pad8, List.take_append_of_le_length h, slice]

/-- An element is decoded to the value it was written for. -/
theorem Database.byteElement_slot {i : Nat} {flags : UInt8} {slots : List Slot}
    (hi : d.items[i]? = some (.refs flags slots)) {k : Nat} (hk : k < slots.length) :
    byteElement d.encode (d.offset i) (widthOf flags.toNat / 8) k = slots[k].value d.items := by
  obtain ⟨hflags, -, hslots⟩ := d.valid_at hi
  obtain ⟨-, hpay⟩ := d.isArray_at hi rfl
  have hw := hflags.width_eq
  have hlen := length_refValues d.items flags slots
  have hle : k * (widthOf flags.toNat / 8) + widthOf flags.toNat / 8 ≤
      ((Item.refs flags slots).values d.items).length := by
    have hmul := Nat.mul_le_mul_right (widthOf flags.toNat / 8) (show k + 1 ≤ slots.length from hk)
    rw [Nat.succ_mul] at hmul
    omega
  have hround := le_roundUp8 (slots.length * (widthOf flags.toNat / 8))
  have hin : slice d.encode (d.offset i + 8 + k * (widthOf flags.toNat / 8))
      (d.offset i + 8 + k * (widthOf flags.toNat / 8) + widthOf flags.toNat / 8) =
      toLittle (widthOf flags.toNat / 8) (slots[k].value d.items) := by
    have h8 := congrArg (fun bs => slice bs (k * (widthOf flags.toNat / 8))
      (k * (widthOf flags.toNat / 8) + widthOf flags.toNat / 8)) hpay
    simp only [slice_pad8 _ hle] at h8
    rw [payloadOf, slice_slice] at h8
    · rw [Nat.add_assoc (d.offset i + 8)]
      exact h8.trans (slice_flatMap_const _ slots (fun _ _ => length_toLittle _ _) hk)
    · show d.offset i + 8 + _ ≤ d.offset i + 8 + roundUp8 (slots.length * (widthOf flags.toNat / 8))
      omega
  rw [byteElement, hin]
  apply fromLittle_toLittle
  have hv := hslots.1 _ (List.getElem_mem hk)
  rw [hw, Nat.pow_mul] at hv
  exact hv

/-- Of the elements of a reference array, the decoder keeps the references. -/
theorem filter_keepRef (flags : UInt8) (slots : List Slot)
    (h : ∀ i ∈ (Item.refs flags slots).children, ArrayNumber d.items i) :
    (slots.map (Slot.value d.items)).filter (keepRef (scanned d.encode)) =
      (Item.refs flags slots).children.map d.offset := by
  induction slots with
  | nil => rfl
  | cons slot slots ih =>
    have hrest := ih fun i hi => h i (by
      simp only [Item.children, List.mem_filterMap] at hi ⊢
      obtain ⟨s, hs, he⟩ := hi
      exact ⟨s, List.mem_cons_of_mem _ hs, he⟩)
    simp only [Item.children] at hrest h ⊢
    rw [List.map_cons, List.filter_cons, List.filterMap_cons]
    cases slot with
    | null =>
      have hno : keepRef (scanned d.encode) (Slot.null.value d.items) = false := by
        rw [← Bool.not_eq_true, keepRef_eq_true_iff]
        intro hm
        have hge := (scanned_facts hm).1
        simp only [Slot.value] at hge
        omega
      rw [hno]
      exact hrest
    | tagged n =>
      have hno : keepRef (scanned d.encode) ((Slot.tagged n).value d.items) = false := by
        rw [← Bool.not_eq_true, keepRef_eq_true_iff]
        intro hm
        have hmod := (scanned_facts hm).2
        simp only [Slot.value] at hmod
        omega
      rw [hno]
      exact hrest
    | child i =>
      have hyes : keepRef (scanned d.encode) ((Slot.child i).value d.items) = true := by
        rw [keepRef_eq_true_iff]
        exact Database.scanned_offset (h i List.mem_cons_self)
      rw [if_pos hyes, hrest]
      rfl

/-- **The references of an array are found, and nothing else**: nulls and tagged
integers are dropped, repeated references too. -/
theorem Database.childRefs_at {i : Nat} {item : Item} (hi : d.items[i]? = some item)
    (ha : item.isArray = true) :
    childRefsOf d.encode (scanned d.encode) (d.offset i) (item.node (d.offset i)) =
      (item.children.map d.offset).eraseDups := by
  have hvalid := d.valid_at hi
  have hhas : ((item.node (d.offset i)).hasRefs = true ∧
      (item.node (d.offset i)).width ∈ [8, 16, 32, 64] ∧ (item.node (d.offset i)).widthScheme = 0) ↔
      RefFlags item.flags := by
    simp only [Item.node, makeNode, RefFlags, bne_iff_ne, ne_eq, scheme_eq]
  rw [childRefsOf, refsOf]
  congr 1
  cases item with
  | refs flags slots =>
    obtain ⟨hflags, -, hslots⟩ := hvalid
    rw [if_pos (hhas.mpr hflags), ← filter_keepRef flags slots hslots.2]
    congr 1
    apply List.ext_getElem
    · rw [List.length_map, List.length_map, List.length_range]
      rfl
    · intro k hk hk'
      rw [List.getElem_map, List.getElem_map, List.getElem_range]
      exact d.byteElement_slot hi (by rwa [List.length_map] at hk')
  | plain flags count payload =>
    rw [if_neg (fun h => hvalid.1 (hhas.mp h))]
    rfl
  | free bytes => cases ha

theorem Database.child_number {i j : Nat} (h : d.Child i j) : ArrayNumber d.items j := by
  obtain ⟨item, hi, hj⟩ := h
  cases item with
  | refs flags slots =>
    obtain ⟨-, -, -, hchildren⟩ := d.valid_at hi
    exact hchildren j hj
  | plain flags count payload => cases hj
  | free bytes => cases hj

/-- The edges on disk that leave an array of the database. -/
theorem Database.childRef_offset {i : Nat} (hn : ArrayNumber d.items i) (c : Nat) :
    ChildRef d.encode (d.offset i) c ↔ ∃ j, d.Child i j ∧ c = d.offset j := by
  obtain ⟨item, hi, ha⟩ := hn
  rw [← mem_childRefsOf_iff_childRef (d.isArray_at hi ha).1, d.childRefs_at hi ha, List.mem_eraseDups,
    List.mem_map]
  constructor
  · rintro ⟨j, hj, rfl⟩
    exact ⟨j, ⟨item, hi, hj⟩, rfl⟩
  · rintro ⟨j, ⟨item', hi', hj⟩, rfl⟩
    rw [hi, Option.some.injEq] at hi'
    exact ⟨j, hi' ▸ hj, rfl⟩

/-- **Paths on disk from an array of the database are paths of the database.** -/
theorem Database.reaches_offset {r : Nat} (hr : ArrayNumber d.items r) (o : Nat) :
    Reaches d.encode (d.offset r) o ↔
      ∃ i, ArrayNumber d.items i ∧ Worklist.Path d.Child r i ∧ o = d.offset i := by
  constructor
  · rintro ⟨-, hpath⟩
    induction hpath with
    | refl => exact ⟨r, hr, Relation.ReflTransGen.refl, rfl⟩
    | tail _ hedge ih =>
      obtain ⟨i, hi, hp, rfl⟩ := ih
      obtain ⟨j, hj, rfl⟩ := (d.childRef_offset hi _).mp hedge
      exact ⟨j, d.child_number hj, hp.tail hj, rfl⟩
  · rintro ⟨i, -, hp, rfl⟩
    refine ⟨d.scanned_offset hr, ?_⟩
    have hboth : ArrayNumber d.items i ∧
        Worklist.Path (ChildRef d.encode) (d.offset r) (d.offset i) := by
      induction hp with
      | refl => exact ⟨hr, Relation.ReflTransGen.refl⟩
      | tail _ hj ih => exact ⟨d.child_number hj,
          ih.2.tail ((d.childRef_offset ih.1 _).mpr ⟨_, hj, rfl⟩)⟩
    exact hboth.2

/-- What a root reaches, for a root that may be missing. -/
theorem Database.reaches_root (root : Option Nat) (hroot : ∀ i, root = some i → ArrayNumber d.items i)
    (o : Nat) :
    Reaches d.encode (d.rootRef root) o ↔
      ∃ i, ArrayNumber d.items i ∧ d.InTree root i ∧ o = d.offset i := by
  cases root with
  | none =>
    constructor
    · intro h
      have hge := (scanned_facts h.1).1
      rw [Database.rootRef] at hge
      omega
    · rintro ⟨_, -, ⟨_, hr, -⟩, -⟩
      cases hr
  | some r =>
    rw [Database.rootRef, d.reaches_offset (hroot r rfl)]
    constructor
    · rintro ⟨i, hi, hp, rfl⟩
      exact ⟨i, hi, ⟨r, rfl, hp⟩, rfl⟩
    · rintro ⟨i, hi, ⟨_, hr, hp⟩, rfl⟩
      cases hr
      exact ⟨i, hi, hp, rfl⟩

theorem Database.reaches_array (root : Option Nat) (hroot : ∀ i, root = some i → ArrayNumber d.items i)
    {i : Nat} (hi : ArrayNumber d.items i) :
    Reaches d.encode (d.rootRef root) (d.offset i) ↔
      d.InTree root i := by
  rw [d.reaches_root root hroot]
  constructor
  · rintro ⟨j, hj, ht, he⟩
    rwa [d.offset_inj hi hj he]
  · exact fun ht => ⟨i, hi, ht, rfl⟩

/-! ## The report -/

theorem Database.pathLabel_offset {i : Nat} (hi : ArrayNumber d.items i) :
    pathLabel d.encode d.realmHeader (d.offset i) = d.label i := by
  classical
  have hactive : Reaches d.encode d.realmHeader.activeTopRef (d.offset i) ↔
      d.InTree (some d.active) i :=
    d.reaches_array (some d.active) (fun _ hr => Option.some.inj hr ▸ d.active_array) hi
  have hinactive : Reaches d.encode d.realmHeader.inactiveTopRef (d.offset i) ↔
      d.InTree d.inactive i := d.reaches_array d.inactive d.inactive_array hi
  unfold pathLabel Database.label
  simp only [hactive, hinactive]

/-- What the trees do not hold is an orphan, wherever it lies. -/
theorem Database.pathLabel_other {o : Nat} (h : ∀ i, ArrayNumber d.items i → o ≠ d.offset i) :
    pathLabel d.encode d.realmHeader o = .orphan := by
  rw [(pathLabel_iff _ _ _).2.2.2]
  constructor
  · intro hreach
    obtain ⟨i, hi, -, ho⟩ := (d.reaches_root (some d.active)
      (fun _ hr => Option.some.inj hr ▸ d.active_array) o).mp hreach
    exact h i hi ho
  · intro hreach
    obtain ⟨i, hi, -, ho⟩ := (d.reaches_root d.inactive d.inactive_array o).mp hreach
    exact h i hi ho

/-- Array `i` of the database, as it is reported. -/
structure ReportedAs (d : Database) (i : Nat) (item : Item) (node : ArrayNode) : Prop where
  layout : shape node = item.node (d.offset i)
  payload : payloadOf d.encode node = pad8 (item.values d.items)
  children : node.childRefs = (item.children.map d.offset).eraseDups
  label : node.reachability = d.label i

theorem Database.reported {i : Nat} {item : Item} (hi : d.items[i]? = some item)
    (ha : item.isArray = true) : ∃ node ∈ inventory d.encode d.realmHeader, ReportedAs d i item node := by
  obtain ⟨harray, hpay⟩ := d.isArray_at hi ha
  refine ⟨_, (mem_inventory _ _ _).mpr ⟨d.offset i, _, harray, rfl⟩, ?_, hpay, ?_, ?_⟩
  · exact shape_of_isArray harray _ _
  · exact d.childRefs_at hi ha
  · exact d.pathLabel_offset ⟨item, hi, ha⟩

/-- A listed array that starts where an array of the database does is that array. -/
theorem Database.reported_of_offset {node : ArrayNode} (hnode : node ∈ inventory d.encode d.realmHeader)
    {i : Nat} {item : Item} (hi : d.items[i]? = some item) (ha : item.isArray = true)
    (ho : node.offset = d.offset i) : ReportedAs d i item node := by
  obtain ⟨node', hnode', hrep⟩ := d.reported hi ha
  have ho' : node'.offset = d.offset i := congrArg (fun n => n.offset) hrep.layout
  rwa [inventory_offset_inj hnode hnode' (ho.trans ho'.symm)]

/-- **The analysis of a database is the database.**  Every array is listed, with its
layout, its payload, its references and its label; all that is listed beside them are
orphans, whatever bytes payloads and free space hold. -/
theorem image_report {ε : Type} (m : Measures ε) (isprintable : Char → Bool) (resolved digest : String)
    (d : Database) :
    ∃ analysis, analyzeMapping m isprintable resolved digest d.encode none = .ok (analysis, []) ∧
      analysis.header = some d.realmHeader ∧
      (∀ i item, d.items[i]? = some item → item.isArray = true →
        ∃ node ∈ analysis.arrays, ReportedAs d i item node) ∧
      ∀ node ∈ analysis.arrays, node.reachability ≠ .orphan →
        ∃ i item, d.items[i]? = some item ∧ item.isArray = true ∧ ReportedAs d i item node := by
  refine ⟨_, analyzeMapping_inspect m isprintable resolved digest d.parseHeader_encode, rfl,
    fun i item hi ha => d.reported hi ha, ?_⟩
  intro node hnode hlabel
  by_cases hex : ∃ i, ArrayNumber d.items i ∧ node.offset = d.offset i
  · obtain ⟨i, ⟨item, hi, ha⟩, ho⟩ := hex
    exact ⟨i, item, hi, ha, d.reported_of_offset hnode hi ha ho⟩
  · refine absurd ?_ hlabel
    rw [(inventory_label hnode).1]
    exact d.pathLabel_other fun i hi ho => hex ⟨i, hi, ho⟩

/-! ## Texts -/

/-- Text of an encoding that no larger segment of such text contains. -/
def MaximalRun (isprintable : Char → Bool) : Encoding → Bytes → Nat → PyStr → Prop
  | .utf8, payload => MaximalUtf8 isprintable payload
  | .utf16le, payload => MaximalPairs payload

/-- The rows of an array are the maximal texts of its payload. -/
theorem mem_nodeRows_iff (isprintable : Char → Bool) (data : Bytes) {minimum : Nat} (hmin : 1 ≤ minimum)
    {node : ArrayNode} (hn : node.hasRefs = false) (row : CarvedString) :
    row ∈ nodeRows isprintable data minimum node ↔ ∃ e k s,
      MaximalRun isprintable e (payloadOf data node) k s ∧ minimum ≤ s.length ∧
        row = makeString node e k s := by
  have h16 := (exactUtf16_nodeRows isprintable data hmin node hn).exact
  rw [nodeRows_utf16 isprintable data minimum node hn] at h16
  rw [nodeRows_eq, hn, if_neg Bool.false_ne_true, List.mem_append, h16, List.mem_map]
  constructor
  · rintro (⟨r, hr, rfl⟩ | ⟨k, s, hm, hlong, rfl⟩)
    · obtain ⟨hm, hlong⟩ := (mem_utf8Runs isprintable _ hmin r).mp hr
      exact ⟨.utf8, r.1, r.2, hm, hlong, rfl⟩
    · exact ⟨.utf16le, k, s, hm, hlong, rfl⟩
  · rintro ⟨e, k, s, hm, hlong, rfl⟩
    cases e with
    | utf8 => exact Or.inl ⟨(k, s), (mem_utf8Runs isprintable _ hmin (k, s)).mpr ⟨hm, hlong⟩, rfl⟩
    | utf16le => exact Or.inr ⟨k, s, hm, hlong, rfl⟩

/-- **The texts of the trees are what is carved from them**: the rows that are no
orphans are the maximal texts in the arrays of the two trees, each at its place, under
the label of its array. -/
theorem image_texts {ε : Type} (m : Measures ε) (isprintable : Char → Bool) (resolved digest : String)
    (d : Database) {minimum : Nat} (hmin : 1 ≤ minimum) {analysis : Analysis ε}
    {strings : List CarvedString}
    (hrun : analyzeMapping m isprintable resolved digest d.encode (some minimum) =
      .ok (analysis, strings)) (row : CarvedString) :
    (row ∈ strings ∧ row.reachability ≠ .orphan) ↔ ∃ i item e k s,
      d.items[i]? = some item ∧ item.isArray = true ∧ item.flags.toNat &&& 0x40 = 0 ∧
      d.label i ≠ .orphan ∧ MaximalRun isprintable e (pad8 (item.values d.items)) k s ∧
      minimum ≤ s.length ∧
      row = ⟨d.offset i + ARRAY_HEADER_SIZE + k, d.offset i, e, s, d.label i⟩ := by
  obtain ⟨-, rfl⟩ := analyzeMapping_ok m isprintable resolved digest d.parseHeader_encode hrun
  have hrefs : ∀ {i item node}, ReportedAs d i item node →
      (node.hasRefs = false ↔ item.flags.toNat &&& 0x40 = 0) := by
    intro i item node h
    have e : node.hasRefs = (item.node (d.offset i)).hasRefs := congrArg (fun n => n.hasRefs) h.layout
    rw [e, Item.node, makeNode, bne_eq_false_iff_eq]
  have hstring : ∀ {i item node}, ReportedAs d i item node → ∀ e k s,
      makeString node e k s = ⟨d.offset i + ARRAY_HEADER_SIZE + k, d.offset i, e, s, d.label i⟩ := by
    intro i item node h e k s
    have ho : node.offset = d.offset i := congrArg (fun n => n.offset) h.layout
    rw [makeString, ho, h.label]
  simp only [carved, List.mem_flatMap]
  constructor
  · rintro ⟨⟨node, hnode, hrow⟩, hlabel⟩
    have hof := (nodeRows_spec isprintable d.encode minimum node).1 row hrow
    rw [hof.label] at hlabel
    by_cases hex : ∃ i, ArrayNumber d.items i ∧ node.offset = d.offset i
    · obtain ⟨i, ⟨item, hi, ha⟩, ho⟩ := hex
      have hrep := d.reported_of_offset hnode hi ha ho
      obtain ⟨e, k, s, hm, hlong, rfl⟩ :=
        (mem_nodeRows_iff isprintable d.encode hmin hof.noRefs row).mp hrow
      rw [hrep.payload] at hm
      exact ⟨i, item, e, k, s, hi, ha, (hrefs hrep).mp hof.noRefs, hrep.label ▸ hlabel, hm, hlong,
        hstring hrep e k s⟩
    · refine absurd ?_ hlabel
      rw [(inventory_label hnode).1]
      exact d.pathLabel_other fun i hi ho => hex ⟨i, hi, ho⟩
  · rintro ⟨i, item, e, k, s, hi, ha, hflags, hlabel, hm, hlong, rfl⟩
    obtain ⟨node, hnode, hrep⟩ := d.reported hi ha
    refine ⟨⟨node, hnode, ?_⟩, hlabel⟩
    rw [mem_nodeRows_iff isprintable d.encode hmin ((hrefs hrep).mpr hflags), hrep.payload]
    exact ⟨e, k, s, hm, hlong, (hstring hrep e k s).symm⟩

end

/-- `synthetic_realm` of the tests. -/
def syntheticItems : List Item :=
  let gap := Item.free (List.replicate 8 0)
  let text (value : String) := Item.plain 0x10 8 (encodeUtf8 value.toList)
  [.refs 0x44 [.child 4], gap, .refs 0x44 [.child 6], gap, text "current!", gap, text "previous", gap,
    text "deleted?"]

def syntheticRealm : Database where
  items := syntheticItems
  active := 0
  inactive := some 2
  second := false
  formatSlots := (10, 10)
  reserved := 0
  valid := by decide +kernel
  active_array := by decide +kernel
  inactive_array := by
    rintro i hi
    cases hi
    decide +kernel
  addressable := by decide +kernel

theorem image_texts_synthetic : ∃ analysis,
    analyzeMapping ⟨(), fun _ => (), fun _ => false⟩ (fun c => decide (0x20 ≤ c.toNat)) "/a.realm" ""
      syntheticRealm.encode (some 4) = .ok (analysis, [
        ⟨80, 72, .utf8, "current!".toList, .active⟩, ⟨104, 96, .utf8, "previous".toList, .inactive⟩,
        ⟨128, 120, .utf8, "deleted?".toList, .orphan⟩]) ∧
    ∃ i, syntheticRealm.offset i = 72 ∧ syntheticRealm.label i = .active := by
  have hrows : (analyzeMapping ⟨(), fun _ => (), fun _ => false⟩ (fun c => decide (0x20 ≤ c.toNat))
      "/a.realm" "" syntheticRealm.encode (some 4)).map Prod.snd = .ok [
        ⟨80, 72, .utf8, "current!".toList, .active⟩, ⟨104, 96, .utf8, "previous".toList, .inactive⟩,
        ⟨128, 120, .utf8, "deleted?".toList, .orphan⟩] := by decide +kernel
  cases hrun : analyzeMapping ⟨(), fun _ => (), fun _ => false⟩ (fun c => decide (0x20 ≤ c.toNat))
      "/a.realm" "" syntheticRealm.encode (some 4) with
  | error e =>
    rw [hrun] at hrows
    cases hrows
  | ok result =>
    obtain ⟨analysis, strings⟩ := result
    rw [hrun] at hrows
    cases hrows
    refine ⟨analysis, rfl, ?_⟩
    obtain ⟨i, item, e, k, s, -, -, -, -, -, -, heq⟩ := (image_texts ⟨(), fun _ => (), fun _ => false⟩
      (fun c => decide (0x20 ≤ c.toNat)) "/a.realm" "" syntheticRealm (by decide) hrun _).mp
      ⟨List.mem_cons_self, by decide⟩
    simp only [CarvedString.mk.injEq] at heq
    exact ⟨i, heq.2.1.symm, heq.2.2.2.2.symm⟩

end Pyrealm
