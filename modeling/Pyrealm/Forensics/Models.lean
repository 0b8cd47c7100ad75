import Pyrealm.Pool.PyDict

/-!
# Data models and constants of the structural scanner

The named tuples of `models.py` and the format constants of `parser.py`.  A
Python `str` is the list of its code points.
-/

namespace Pyrealm

open Py

inductive Reachability where
  | active
  | shared
  | inactive
  | orphan
deriving DecidableEq, Repr

/-- The fixed 24-byte Realm file header. -/
structure RealmHeader where
  topRefs : Nat × Nat
  formatSlots : Nat × Nat
  reserved : Nat
  flags : Nat
  activeSlot : Nat
  activeTopRef : Nat
  inactiveTopRef : Nat
  streaming : Bool
deriving DecidableEq, Repr

/-- A structurally valid, on-disk Realm array. -/
structure ArrayNode where
  offset : Nat
  byteSize : Nat
  payloadSize : Nat
  elementCount : Nat
  width : Nat
  widthScheme : Nat
  hasRefs : Bool
  innerBptree : Bool
  contextFlag : Bool
  childRefs : List Nat
  reachability : Reachability
deriving DecidableEq, Repr

inductive Encoding where
  | utf8
  | utf16le
deriving DecidableEq, Repr

/-- A printable string found inside an array payload. -/
structure CarvedString where
  fileOffset : Nat
  arrayOffset : Nat
  encoding : Encoding
  value : PyStr
  reachability : Reachability
deriving DecidableEq, Repr

inductive Classification where
  | empty
  | plaintextRealm
  | possibleEncryptedOrUnsupportedRealm
  | notAPlainRealm
deriving DecidableEq, Repr

/-- Top-level analysis result; `ε` is the type of the entropy estimate.  A path is a text:
names with undecodable bytes are left out. -/
structure Analysis (ε : Type) where
  path : String
  sha256 : String
  fileSize : Nat
  classification : Classification
  entropy : ε
  header : Option RealmHeader
  arrays : List ArrayNode
  warnings : List String
deriving Repr

abbrev FILE_HEADER_SIZE : Nat := 24
abbrev ARRAY_HEADER_SIZE : Nat := 8
/-- `b"T-DB"` -/
def REALM_MAGIC : Bytes := [0x54, 0x2D, 0x44, 0x42]
/-- `b"AAAA"` -/
def ARRAY_SIGNATURE : Bytes := [0x41, 0x41, 0x41, 0x41]
def STREAMING_COOKIE : Nat := 0x3034125237E526C8
def WIDTHS : List Nat := [0, 1, 2, 4, 8, 16, 32, 64]
abbrev ENCRYPTION_BLOCK_SIZE : Nat := 4096

/-- `a[i]` on a tuple. -/
def tupleItem {α : Type} (a : List α) (i : Nat) : Except Exc α :=
  match a[i]? with
  | some x => .ok x
  | none => .error .indexError

end Pyrealm
