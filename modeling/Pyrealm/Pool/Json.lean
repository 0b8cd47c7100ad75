import Pyrealm.Pool.Binascii
import Pyrealm.Pool.Numerals
import Pyrealm.Pool.PyCodec
import Pyrealm.Pool.PyDict

/-!
# JSON texts

`json.dumps` with its default separators, compact or indented, and the reading of
`json.loads`.  The floats are a parameter: a type whose texts are read back
(`FloatFormat`).  A `dict` is the list of its entries, in order.

    loads format (dumps format layout value) = some value        (loads_dumps)

* `scanString_dumpString`: a string literal reads back, whatever its characters.
* `parseNumber_decimalInt`, `parseNumber_repr`: so does a number, before anything
  that cannot continue it (`Stops`).
* `dumps_line`: a compact text is one line of printable ASCII.
* `get_sortKeys`: `sort_keys=True` moves no member.
-/

namespace Py

/-! ## Data -/

/-- What follows the digits of a whole number in a float's text. -/
inductive Fraction : PyStr → Prop
  | none : Fraction []
  | some {digits : PyStr} (h : AllDigits digits) (hne : digits ≠ []) : Fraction ('.' :: digits)

inductive Exponent : PyStr → Prop
  | none : Exponent []
  | some {sign digits : PyStr} (hsign : sign = [] ∨ sign = ['+'] ∨ sign = ['-'])
      (h : AllDigits digits) (hne : digits ≠ []) : Exponent ('e' :: (sign ++ digits))

/-- `-` of a negative number. -/
def signText (negative : Bool) : PyStr := if negative then ['-'] else []

/-- The texts of finite floats. -/
def FloatLiteral (text : PyStr) : Prop :=
  ∃ negative n fraction exponent, Fraction fraction ∧ Exponent exponent ∧
    ¬ (fraction = [] ∧ exponent = []) ∧
    text = signText negative ++ decimal n ++ fraction ++ exponent

/-- `float.__repr__` and `float` on finite floats. -/
structure FloatFormat (φ : Type) where
  repr : φ → PyStr
  parse : PyStr → Option φ
  literal : ∀ x, FloatLiteral (repr x)
  parse_repr : ∀ x, parse (repr x) = some x

/-- The whole floats: `3.0`, `12.0`. -/
def wholeFormat : FloatFormat Nat where
  repr n := decimal n ++ ['.', '0']
  parse text :=
    let (digits, rest) := splitDigits text
    if rest = ['.', '0'] then some (digitsValue digits) else none
  literal n :=
    ⟨false, n, ['.', '0'], [], .some (by simp [AllDigits]) (by decide), .none, by decide,
      by simp [signText]⟩
  parse_repr n := by
    have hdot : NoDigit ['.', '0'] := by simp [NoDigit]
    simp [splitDigits_append (decimal_digits n) hdot, digitsValue_decimal]

example : wholeFormat.repr 12 = "12.0".toList := by decide

inductive Json (φ : Type) where
  | null
  | bool (b : Bool)
  | int (n : Int)
  | float (x : φ)
  | str (s : PyStr)
  | arr (items : List (Json φ))
  | obj (entries : List (PyStr × Json φ))
deriving Repr

/-! ## Writing -/

/-- The separators of `json.dumps`: `indent=None`, or a number of spaces. -/
structure Layout where
  indent : Option Nat

def Layout.newline (layout : Layout) (level : Nat) : PyStr :=
  match layout.indent with
  | none => []
  | some n => '\n' :: List.replicate (n * level) ' '

def Layout.comma (layout : Layout) (level : Nat) : PyStr :=
  match layout.indent with
  | none => [',', ' ']
  | some _ => ',' :: layout.newline level

/-- Four hexadecimal digits. -/
def hexQuad (n : Nat) : PyStr :=
  [hexDigits.getD (n / 4096 % 16) '0', hexDigits.getD (n / 256 % 16) '0',
    hexDigits.getD (n / 16 % 16) '0', hexDigits.getD (n % 16) '0']

/-- `'\\u{0:04x}'.format(n)` -/
def unicodeEscape (n : Nat) : PyStr := '\\' :: 'u' :: hexQuad n

/-- `py_encode_basestring_ascii`, of one character. -/
def escapeChar (c : Char) : PyStr :=
  if c = '"' then ['\\', '"']
  else if c = '\\' then ['\\', '\\']
  else if c = '\n' then ['\\', 'n']
  else if c = '\r' then ['\\', 'r']
  else if c = '\t' then ['\\', 't']
  else if c = '\x0c' then ['\\', 'f']
  else if c = '\x08' then ['\\', 'b']
  else if 0x20 ≤ c.toNat ∧ c.toNat ≤ 0x7e then [c]
  else if c.toNat < 0x10000 then unicodeEscape c.toNat
  else
    unicodeEscape (0xd800 + (c.toNat - 0x10000) / 1024) ++
      unicodeEscape (0xdc00 + (c.toNat - 0x10000) % 1024)

def dumpString (s : PyStr) : PyStr := '"' :: (s.flatMap escapeChar ++ ['"'])

section
variable {φ : Type} (format : FloatFormat φ) (layout : Layout)

mutual

/-- `json.dumps(value)`, at a level of indentation. -/
def dumps (level : Nat) : Json φ → PyStr
  | .null => ['n', 'u', 'l', 'l']
  | .bool true => ['t', 'r', 'u', 'e']
  | .bool false => ['f', 'a', 'l', 's', 'e']
  | .int n => decimalInt n
  | .float x => format.repr x
  | .str s => dumpString s
  | .arr [] => ['[', ']']
  | .arr (item :: items) =>
    '[' :: (layout.newline (level + 1) ++ dumps (level + 1) item ++ dumpItems (level + 1) items ++
      layout.newline level ++ [']'])
  | .obj [] => ['\x7b', '\x7d']
  | .obj ((key, value) :: entries) =>
    '\x7b' :: (layout.newline (level + 1) ++ dumpString key ++ [':', ' '] ++ dumps (level + 1) value ++
      dumpEntries (level + 1) entries ++ layout.newline level ++ ['\x7d'])

/-- The items behind the first. -/
def dumpItems (level : Nat) : List (Json φ) → PyStr
  | [] => []
  | item :: items => layout.comma level ++ dumps level item ++ dumpItems level items

def dumpEntries (level : Nat) : List (PyStr × Json φ) → PyStr
  | [] => []
  | (key, value) :: entries =>
    layout.comma level ++ dumpString key ++ [':', ' '] ++ dumps level value ++
      dumpEntries level entries

end

end

/-! ## Reading -/

def isWhitespace (c : Char) : Bool := c = ' ' || c = '\t' || c = '\n' || c = '\r'

def skipWhitespace (s : PyStr) : PyStr := s.dropWhile isWhitespace

def hexValue (c : Char) : Option Nat :=
  if '0' ≤ c ∧ c ≤ '9' then some (c.toNat - 48)
  else if 'a' ≤ c ∧ c ≤ 'f' then some (c.toNat - 87)
  else if 'A' ≤ c ∧ c ≤ 'F' then some (c.toNat - 55)
  else none

/-- The four digits of `\uXXXX`. -/
def scanHex : PyStr → Option (Nat × PyStr)
  | a :: b :: c :: d :: s => do
    let a ← hexValue a
    let b ← hexValue b
    let c ← hexValue c
    let d ← hexValue d
    some (4096 * a + 256 * b + 16 * c + d, s)
  | _ => none

/-- The low half of a surrogate pair. -/
def scanLow : PyStr → Option (Nat × PyStr)
  | a :: b :: s => if a = '\\' ∧ b = 'u' then scanHex s else none
  | _ => none

/-- What `\u` stands for; a lone surrogate is no character. -/
def scanUnicode (s : PyStr) : Option (Char × PyStr) := do
  let (n, s) ← scanHex s
  if 0xd800 ≤ n ∧ n < 0xdc00 then do
    let (low, s) ← scanLow s
    if 0xdc00 ≤ low ∧ low < 0xe000 then
      some (Char.ofNat (0x10000 + 1024 * (n - 0xd800) + (low - 0xdc00)), s)
    else none
  else if 0xdc00 ≤ n ∧ n < 0xe000 then none
  else some (Char.ofNat n, s)

def backslash (c : Char) : Option Char :=
  if c = '"' then some '"' else if c = '\\' then some '\\' else if c = '/' then some '/'
  else if c = 'n' then some '\n' else if c = 'r' then some '\r' else if c = 't' then some '\t'
  else if c = 'f' then some '\x0c' else if c = 'b' then some '\x08' else none

/-- What follows a backslash. -/
def scanEscape : PyStr → Option (Char × PyStr)
  | [] => none
  | c :: s => if c = 'u' then scanUnicode s else (backslash c).map (·, s)

/-- One character of a string literal; control characters are refused. -/
def scanChar : PyStr → Option (Char × PyStr)
  | [] => none
  | c :: s => if c = '\\' then scanEscape s else if c.toNat < 0x20 then none else some (c, s)

/-- The rest of a string literal. -/
def scanString : Nat → PyStr → Option (PyStr × PyStr)
  | 0, _ => none
  | _ + 1, [] => none
  | fuel + 1, c :: s =>
    if c = '"' then some ([], s)
    else do
      let (c, s) ← scanChar (c :: s)
      let (text, s) ← scanString fuel s
      some (c :: text, s)

/-- `-?` -/
def scanSign : PyStr → Bool × PyStr
  | '-' :: s => (true, s)
  | s => (false, s)

/-- `0|[1-9][0-9]*` -/
def scanWhole : PyStr → Option (PyStr × PyStr)
  | '0' :: s => some (['0'], s)
  | s => if (splitDigits s).1 = [] then none else some (splitDigits s)

/-- `(\.[0-9]+)?` -/
def scanFraction : PyStr → PyStr × PyStr
  | '.' :: s => if (splitDigits s).1 = [] then ([], '.' :: s) else ('.' :: (splitDigits s).1, (splitDigits s).2)
  | s => ([], s)

/-- `[-+]?` -/
def scanPlusMinus : PyStr → PyStr × PyStr
  | '+' :: s => (['+'], s)
  | '-' :: s => (['-'], s)
  | s => ([], s)

/-- `([eE][-+]?[0-9]+)?` -/
def scanExponent : PyStr → PyStr × PyStr
  | c :: s =>
    if c = 'e' ∨ c = 'E' then
      let (sign, t) := scanPlusMinus s
      if (splitDigits t).1 = [] then ([], c :: s)
      else (c :: (sign ++ (splitDigits t).1), (splitDigits t).2)
    else ([], c :: s)
  | [] => ([], [])

def signed (negative : Bool) (n : Nat) : Int := if negative then -n else n

section
variable {φ : Type} (format : FloatFormat φ)

def parseNumber (s : PyStr) : Option (Json φ × PyStr) := do
  let (negative, s) := scanSign s
  let (whole, s) ← scanWhole s
  let (fraction, s) := scanFraction s
  let (exponent, s) := scanExponent s
  if fraction = [] ∧ exponent = [] then some (.int (signed negative (digitsValue whole)), s)
  else do
    let x ← format.parse (signText negative ++ whole ++ fraction ++ exponent)
    some (.float x, s)

/-- A literal word, behind its first letter. -/
def parseWord (word : PyStr) (value : Json φ) (s : PyStr) : Option (Json φ × PyStr) :=
  if word.isPrefixOf s then some (value, s.drop word.length) else none

/-- What follows an opening bracket: the closing one, or the first element. -/
def firstElement {α : Type} (close : Char) (parse : PyStr → Option (List α × PyStr)) (s : PyStr) :
    Option (List α × PyStr) :=
  match skipWhitespace s with
  | [] => none
  | c :: s => if c = close then some ([], s) else parse (c :: s)

/-- What follows an element: a comma and the next one, or the closing bracket. -/
def nextElement {α : Type} (close : Char) (parse : PyStr → Option (List α × PyStr)) (s : PyStr) :
    Option (List α × PyStr) :=
  match skipWhitespace s with
  | [] => none
  | c :: s =>
    if c = ',' then parse (skipWhitespace s) else if c = close then some ([], s) else none

/-- The colon behind a key. -/
def scanColon (s : PyStr) : Option PyStr :=
  match skipWhitespace s with
  | [] => none
  | c :: s => if c = ':' then some (skipWhitespace s) else none

/-- The opening quote of a key. -/
def scanQuote : PyStr → Option PyStr
  | [] => none
  | c :: s => if c = '"' then some s else none

mutual

/-- `scan_once` -/
def parseValue : Nat → PyStr → Option (Json φ × PyStr)
  | 0, _ => none
  | _ + 1, [] => none
  | fuel + 1, c :: s =>
    if c = '"' then (scanString fuel s).map fun (text, s) => (.str text, s)
    else if c = '[' then
      (firstElement ']' (parseItems fuel) s).map fun (items, s) => (.arr items, s)
    else if c = '\x7b' then
      (firstElement '\x7d' (parseEntries fuel) s).map fun (entries, s) => (.obj entries, s)
    else if c = 'n' then parseWord ['u', 'l', 'l'] .null s
    else if c = 't' then parseWord ['r', 'u', 'e'] (.bool true) s
    else if c = 'f' then parseWord ['a', 'l', 's', 'e'] (.bool false) s
    else parseNumber format (c :: s)

/-- Items up to the closing bracket. -/
def parseItems : Nat → PyStr → Option (List (Json φ) × PyStr)
  | 0, _ => none
  | fuel + 1, s => do
    let (item, s) ← parseValue fuel s
    let (items, s) ← nextElement ']' (parseItems fuel) s
    some (item :: items, s)

/-- Entries up to the closing brace. -/
def parseEntries : Nat → PyStr → Option (List (PyStr × Json φ) × PyStr)
  | 0, _ => none
  | fuel + 1, s => do
    let s ← scanQuote s
    let (key, s) ← scanString fuel s
    let s ← scanColon s
    let (value, s) ← parseValue fuel s
    let (entries, s) ← nextElement '\x7d' (parseEntries fuel) s
    some ((key, value) :: entries, s)

end

/-- `json.loads(s)`; every step of the parser takes a character, so the length is fuel enough. -/
def loads (s : PyStr) : Option (Json φ) :=
  match parseValue format (s.length + 1) (skipWhitespace s) with
  | some (value, s) => if skipWhitespace s = [] then some value else none
  | none => none

end

/-! ## String literals -/

theorem hexValue_hexDigits : ∀ n, n < 16 → hexValue (hexDigits.getD n '0') = some n := by decide

theorem scanHex_hexQuad {n : Nat} (h : n < 0x10000) (rest : PyStr) :
    scanHex (hexQuad n ++ rest) = some (n, rest) := by
  have hn : 4096 * (n / 4096 % 16) + 256 * (n / 256 % 16) + 16 * (n / 16 % 16) + n % 16 = n := by
    omega
  simp only [hexQuad, List.cons_append, List.nil_append, scanHex]
  rw [hexValue_hexDigits _ (Nat.mod_lt _ (by decide)), hexValue_hexDigits _ (Nat.mod_lt _ (by decide)),
    hexValue_hexDigits _ (Nat.mod_lt _ (by decide)), hexValue_hexDigits _ (Nat.mod_lt _ (by decide))]
  simp only [Option.bind_eq_bind, Option.bind_some, hn]

theorem scanUnicode_basic {c : Char} (h : c.toNat < 0x10000) (rest : PyStr) :
    scanUnicode (hexQuad c.toNat ++ rest) = some (c, rest) := by
  have hr := char_range c
  simp only [scanUnicode, scanHex_hexQuad h, Option.bind_eq_bind, Option.bind_some]
  rw [if_neg (by omega), if_neg (by omega), Char.ofNat_toNat]

/-- A surrogate pair. -/
theorem scanUnicode_pair {high low : Nat} (hh : 0xd800 ≤ high ∧ high < 0xdc00)
    (hl : 0xdc00 ≤ low ∧ low < 0xe000) (rest : PyStr) :
    scanUnicode (hexQuad high ++ (unicodeEscape low ++ rest)) =
      some (Char.ofNat (0x10000 + 1024 * (high - 0xd800) + (low - 0xdc00)), rest) := by
  have hlow : scanLow (unicodeEscape low ++ rest) = some (low, rest) := by
    rw [unicodeEscape, List.cons_append, List.cons_append, scanLow, if_pos ⟨rfl, rfl⟩]
    exact scanHex_hexQuad (by omega) rest
  rw [scanUnicode, scanHex_hexQuad (by omega)]
  simp only [Option.bind_eq_bind, Option.bind_some]
  rw [if_pos hh, hlow]
  simp only [Option.bind_some]
  rw [if_pos hl]

theorem scanChar_escapeChar (c : Char) (rest : PyStr) :
    scanChar (escapeChar c ++ rest) = some (c, rest) := by
  unfold escapeChar
  split
  · next h => subst h; rfl
  split
  · next h => subst h; rfl
  split
  · next h => subst h; rfl
  split
  · next h => subst h; rfl
  split
  · next h => subst h; rfl
  split
  · next h => subst h; rfl
  split
  · next h => subst h; rfl
  split
  · next hne _ _ _ _ _ h =>
    rw [List.singleton_append, scanChar, if_neg hne, if_neg (by omega)]
  split
  · next h => exact scanUnicode_basic h rest
  · next h =>
    have hr := char_range c
    rw [List.append_assoc]
    refine (scanUnicode_pair (by omega) (by omega) rest).trans ?_
    have hc : 0x10000 + 1024 * (0xd800 + (c.toNat - 0x10000) / 1024 - 0xd800) +
        (0xdc00 + (c.toNat - 0x10000) % 1024 - 0xdc00) = c.toNat := by omega
    rw [hc, Char.ofNat_toNat]

theorem escapeChar_head (c : Char) : ∃ d text, escapeChar c = d :: text ∧ d ≠ '"' := by
  unfold escapeChar
  by_cases h : c = '"'
  · rw [if_pos h]
    exact ⟨_, _, rfl, by decide⟩
  · rw [if_neg h]
    repeat' split
    all_goals first | exact ⟨_, _, rfl, by decide⟩ | exact ⟨_, _, rfl, h⟩

theorem dumpString_cons (c : Char) (s rest : PyStr) :
    (c :: s).flatMap escapeChar ++ ['"'] ++ rest =
      escapeChar c ++ (s.flatMap escapeChar ++ ['"'] ++ rest) := by
  rw [List.flatMap_cons, List.append_assoc, List.append_assoc, List.append_assoc]

/-- **A string literal reads back.** -/
theorem scanString_dumpString (s rest : PyStr) : ∀ fuel, s.length < fuel →
    scanString fuel (s.flatMap escapeChar ++ ['"'] ++ rest) = some (s, rest) := by
  induction s with
  | nil =>
    intro fuel hf
    obtain ⟨fuel, rfl⟩ : ∃ k, fuel = k + 1 := ⟨fuel - 1, by omega⟩
    rfl
  | cons c s ih =>
    intro fuel hf
    rw [List.length_cons] at hf
    obtain ⟨fuel, rfl⟩ : ∃ k, fuel = k + 1 := ⟨fuel - 1, by omega⟩
    obtain ⟨d, text, hd, hne⟩ := escapeChar_head c
    have hc := scanChar_escapeChar c (s.flatMap escapeChar ++ ['"'] ++ rest)
    rw [hd] at hc
    rw [dumpString_cons, hd]
    rw [List.cons_append] at hc ⊢
    rw [scanString, if_neg hne, hc]
    simp only [Option.bind_eq_bind, Option.bind_some, ih fuel (by omega)]

theorem length_le_dumpString (s : PyStr) : s.length + 2 ≤ (dumpString s).length := by
  have hs : s.length ≤ (s.flatMap escapeChar).length := by
    induction s with
    | nil => exact Nat.le_refl _
    | cons c s ih =>
      obtain ⟨d, text, hd, -⟩ := escapeChar_head c
      rw [List.flatMap_cons, hd, List.length_append, List.length_cons, List.length_cons]
      omega
  rw [dumpString, List.length_cons, List.length_append, List.length_singleton]
  omega

/-! ## Numbers -/

/-- A text that cannot continue a number. -/
def Stops (s : PyStr) : Prop := ∀ c ∈ s.head?, c.isDigit = false ∧ c ≠ '.' ∧ c ≠ 'e' ∧ c ≠ 'E'

theorem Stops.noDigit {s : PyStr} (h : Stops s) : NoDigit s := fun c hc => (h c hc).1

theorem scanWhole_decimal (n : Nat) {rest : PyStr} (h : NoDigit rest) :
    scanWhole (decimal n ++ rest) = some (decimal n, rest) := by
  obtain ⟨c, digits, hd⟩ := List.exists_cons_of_ne_nil (decimal_ne_nil n)
  have hsplit := splitDigits_append (decimal_digits n) h
  by_cases hc : c = '0'
  · subst hc
    obtain ⟨-, rfl⟩ := decimal_head hd
    rw [hd]
    rfl
  · have hw : scanWhole (decimal n ++ rest) = if (splitDigits (decimal n ++ rest)).1 = [] then none
        else some (splitDigits (decimal n ++ rest)) := by
      rw [hd, List.cons_append, scanWhole]
      intro s hs
      rw [List.cons.injEq] at hs
      exact hc hs.1
    rw [hw, hsplit, if_neg (decimal_ne_nil n)]

theorem scanFraction_stops {s : PyStr} (h : ∀ c ∈ s.head?, c ≠ '.') : scanFraction s = ([], s) := by
  cases s with
  | nil => rfl
  | cons c s =>
    rw [scanFraction]
    intro t ht
    rw [List.cons.injEq] at ht
    exact h c rfl ht.1

theorem scanExponent_stops {s : PyStr} (h : ∀ c ∈ s.head?, c ≠ 'e' ∧ c ≠ 'E') :
    scanExponent s = ([], s) := by
  cases s with
  | nil => rfl
  | cons c s =>
    obtain ⟨h1, h2⟩ := h c rfl
    rw [scanExponent, if_neg (by simp [h1, h2])]

/-- The first character of digits, and what it is not. -/
theorem AllDigits.head {digits : PyStr} (h : AllDigits digits) (hne : digits ≠ []) (rest : PyStr) :
    ∃ c s, digits ++ rest = c :: s ∧ c ≠ '-' ∧ c ≠ '+' := by
  obtain ⟨c, s, rfl⟩ := List.exists_cons_of_ne_nil hne
  have hc : c.isDigit = true := h c List.mem_cons_self
  refine ⟨c, s ++ rest, rfl, ?_, ?_⟩
  · rintro rfl
    exact absurd hc (by decide)
  · rintro rfl
    exact absurd hc (by decide)

theorem scanSign_decimal (negative : Bool) (n : Nat) (rest : PyStr) :
    scanSign (signText negative ++ (decimal n ++ rest)) = (negative, decimal n ++ rest) := by
  cases negative with
  | true => rfl
  | false =>
    obtain ⟨c, s, hs, hc, -⟩ := (decimal_digits n).head (decimal_ne_nil n) rest
    rw [signText, if_neg Bool.false_ne_true, List.nil_append, hs, scanSign]
    intro t ht
    rw [List.cons.injEq] at ht
    exact hc ht.1

theorem scanPlusMinus_digits {sign digits : PyStr}
    (hsign : sign = [] ∨ sign = ['+'] ∨ sign = ['-']) (h : AllDigits digits) (hne : digits ≠ [])
    (rest : PyStr) : scanPlusMinus (sign ++ (digits ++ rest)) = (sign, digits ++ rest) := by
  rcases hsign with rfl | rfl | rfl
  · obtain ⟨c, s, hs, h1, h2⟩ := h.head hne rest
    rw [List.nil_append, hs, scanPlusMinus]
    · intro t ht
      rw [List.cons.injEq] at ht
      exact h2 ht.1
    · intro t ht
      rw [List.cons.injEq] at ht
      exact h1 ht.1
  · rfl
  · rfl

theorem scanExponent_append {exponent rest : PyStr} (h : Exponent exponent) (hr : Stops rest) :
    scanExponent (exponent ++ rest) = (exponent, rest) := by
  cases h with
  | none => exact scanExponent_stops fun c hc => (hr c hc).2.2
  | some hsign hd hne =>
    rw [List.cons_append, scanExponent, if_pos (Or.inl rfl), List.append_assoc]
    simp only [scanPlusMinus_digits hsign hd hne, splitDigits_append hd hr.noDigit, if_neg hne]

/-- What stands behind the digits of a number, or behind its fraction. -/
theorem exponent_head {exponent rest : PyStr} (h : Exponent exponent) (hr : Stops rest) :
    ∀ c ∈ (exponent ++ rest).head?, c.isDigit = false ∧ c ≠ '.' := by
  cases h with
  | none => exact fun c hc => ⟨(hr c hc).1, (hr c hc).2.1⟩
  | some hsign hd hne =>
    intro c hc
    cases hc
    decide

theorem scanFraction_append {fraction rest : PyStr} (h : Fraction fraction)
    (hr : ∀ c ∈ rest.head?, c.isDigit = false ∧ c ≠ '.') :
    scanFraction (fraction ++ rest) = (fraction, rest) := by
  cases h with
  | none => exact scanFraction_stops fun c hc => (hr c hc).2
  | some hd hne =>
    rw [List.cons_append, scanFraction, splitDigits_append hd fun c hc => (hr c hc).1, if_neg hne]

theorem fraction_head {fraction rest : PyStr} (h : Fraction fraction) (hr : NoDigit rest) :
    NoDigit (fraction ++ rest) := by
  cases h with
  | none => exact hr
  | some hd hne =>
    intro c hc
    cases hc
    decide

section
variable {φ : Type} (format : FloatFormat φ)

/-- The parts of a number's text are found again. -/
theorem parseNumber_parts (negative : Bool) (n : Nat) {fraction exponent rest : PyStr}
    (hf : Fraction fraction) (he : Exponent exponent) (hr : Stops rest) :
    parseNumber format (signText negative ++ decimal n ++ fraction ++ exponent ++ rest) =
      if fraction = [] ∧ exponent = [] then some (.int (signed negative n), rest)
      else (format.parse (signText negative ++ decimal n ++ fraction ++ exponent)).bind
        fun x => some (.float x, rest) := by
  have hexp := exponent_head he hr
  have hwhole : NoDigit (fraction ++ (exponent ++ rest)) := fraction_head hf fun c hc => (hexp c hc).1
  simp only [List.append_assoc, parseNumber, scanSign_decimal, scanWhole_decimal n hwhole,
    Option.bind_eq_bind, Option.bind_some, scanFraction_append hf hexp, scanExponent_append he hr,
    digitsValue_decimal]

theorem parseNumber_decimalInt (n : Int) {rest : PyStr} (hr : Stops rest) :
    parseNumber format (decimalInt n ++ rest) = some (.int n, rest) := by
  cases n with
  | ofNat n =>
    have h := parseNumber_parts format false n .none .none hr
    rw [if_pos ⟨rfl, rfl⟩] at h
    simpa [signText, decimalInt, signed] using h
  | negSucc n =>
    have h := parseNumber_parts format true (n + 1) .none .none hr
    rw [if_pos ⟨rfl, rfl⟩] at h
    simpa [signText, decimalInt, signed, Int.negSucc_eq] using h

theorem parseNumber_repr (x : φ) {rest : PyStr} (hr : Stops rest) :
    parseNumber format (format.repr x ++ rest) = some (.float x, rest) := by
  obtain ⟨negative, n, fraction, exponent, hf, he, hne, htext⟩ := format.literal x
  have h := parseNumber_parts format negative n hf he hr
  rw [if_neg hne, ← htext, format.parse_repr] at h
  exact h

end

/-! ## Values -/

/-- A text that starts with no white space, and not with `close`. -/
def Starts (close : Char) (s : PyStr) : Prop :=
  ∃ c t, s = c :: t ∧ isWhitespace c = false ∧ c ≠ close

theorem Starts.append {close : Char} {s : PyStr} (h : Starts close s) (rest : PyStr) :
    Starts close (s ++ rest) := by
  obtain ⟨c, t, rfl, hc⟩ := h
  exact ⟨c, t ++ rest, rfl, hc⟩

theorem skipWhitespace_cons {c : Char} (h : isWhitespace c = false) (s : PyStr) :
    skipWhitespace (c :: s) = c :: s := by
  rw [skipWhitespace, List.dropWhile_cons_of_neg (by simp [h])]

theorem skipWhitespace_spaces (n : Nat) (s : PyStr) :
    skipWhitespace (List.replicate n ' ' ++ s) = skipWhitespace s := by
  induction n with
  | zero => rfl
  | succ n ih =>
    rw [List.replicate_succ, List.cons_append, skipWhitespace, List.dropWhile_cons_of_pos (by decide)]
    exact ih

theorem skipWhitespace_newline (layout : Layout) (level : Nat) (s : PyStr) :
    skipWhitespace (layout.newline level ++ s) = skipWhitespace s := by
  unfold Layout.newline
  split
  · rfl
  · rw [List.cons_append, skipWhitespace, List.dropWhile_cons_of_pos (by decide)]
    exact skipWhitespace_spaces _ s

/-- A separator is a comma and white space. -/
theorem comma_eq (layout : Layout) (level : Nat) :
    ∃ spaces, layout.comma level = ',' :: spaces ∧
      ∀ s, skipWhitespace (spaces ++ s) = skipWhitespace s := by
  unfold Layout.comma
  split
  · exact ⟨[' '], rfl, fun s => skipWhitespace_spaces 1 s⟩
  · exact ⟨_, rfl, skipWhitespace_newline layout level⟩

section
variable {α : Type} {close : Char} (parse : PyStr → Option (List α × PyStr)) (layout : Layout)
  (level : Nat) {s : PyStr}

theorem firstElement_starts (h : Starts close s) :
    firstElement close parse (layout.newline level ++ s) = parse s := by
  obtain ⟨c, t, rfl, hw, hc⟩ := h
  rw [firstElement, skipWhitespace_newline, skipWhitespace_cons hw]
  exact if_neg hc

theorem nextElement_comma (h : Starts close s) :
    nextElement close parse (layout.comma level ++ s) = parse s := by
  obtain ⟨spaces, hcomma, hskip⟩ := comma_eq layout level
  obtain ⟨c, t, rfl, hw, -⟩ := h
  rw [nextElement, hcomma, List.cons_append, skipWhitespace_cons (by decide)]
  simp only [if_true, hskip, skipWhitespace_cons hw]

theorem nextElement_close (hw : isWhitespace close = false) (hc : close ≠ ',') (rest : PyStr) :
    nextElement close parse (layout.newline level ++ close :: rest) = some ([], rest) := by
  rw [nextElement, skipWhitespace_newline, skipWhitespace_cons hw]
  simp only [if_neg hc, if_true]

/-- What follows an element cannot continue a number. -/
theorem stops_newline {c : Char} (hc : c.isDigit = false ∧ c ≠ '.' ∧ c ≠ 'e' ∧ c ≠ 'E') (rest : PyStr) :
    Stops (layout.newline level ++ c :: rest) := by
  unfold Layout.newline
  split
  · intro d hd
    cases hd
    exact hc
  · intro d hd
    cases hd
    decide

theorem stops_comma (s : PyStr) : Stops (layout.comma level ++ s) := by
  obtain ⟨spaces, hcomma, -⟩ := comma_eq layout level
  rw [hcomma]
  intro c hc
  cases hc
  decide

end

/-- How a number starts. -/
def NumberHead (c : Char) : Prop := c.isDigit = true ∨ c = '-'

theorem number_head (negative : Bool) (n : Nat) (rest : PyStr) :
    ∃ c t, signText negative ++ decimal n ++ rest = c :: t ∧ NumberHead c := by
  cases negative with
  | true => exact ⟨'-', decimal n ++ rest, rfl, Or.inr rfl⟩
  | false =>
    obtain ⟨c, digits, hd⟩ := List.exists_cons_of_ne_nil (decimal_ne_nil n)
    refine ⟨c, digits ++ rest, by rw [hd]; rfl, Or.inl (decimal_digits n c ?_)⟩
    rw [hd]
    exact List.mem_cons_self

theorem decimalInt_head (n : Int) : ∃ c t, decimalInt n = c :: t ∧ NumberHead c := by
  cases n with
  | ofNat n =>
    obtain ⟨c, t, h, hc⟩ := number_head false n []
    exact ⟨c, t, by rw [← h, List.append_nil]; rfl, hc⟩
  | negSucc n => exact ⟨'-', decimal (n + 1), rfl, Or.inr rfl⟩

theorem NumberHead.ne {c d : Char} (h : NumberHead c) (hd : d.isDigit = false ∧ d ≠ '-') : c ≠ d := by
  rintro rfl
  rcases h with h | h
  · rw [hd.1] at h
    cases h
  · exact hd.2 h

theorem NumberHead.starts {c : Char} (h : NumberHead c) {close : Char}
    (hd : close.isDigit = false ∧ close ≠ '-') (t : PyStr) : Starts close (c :: t) := by
  refine ⟨c, t, rfl, ?_, h.ne hd⟩
  simp [isWhitespace, h.ne (d := ' ') (by decide), h.ne (d := '\t') (by decide),
    h.ne (d := '\n') (by decide), h.ne (d := '\r') (by decide)]

section
variable {φ : Type} (format : FloatFormat φ) (layout : Layout)

theorem repr_head (x : φ) : ∃ c t, format.repr x = c :: t ∧ NumberHead c := by
  obtain ⟨negative, n, fraction, exponent, -, -, -, htext⟩ := format.literal x
  obtain ⟨c, t, h, hc⟩ := number_head negative n (fraction ++ exponent)
  exact ⟨c, t, by rw [htext, ← h, List.append_assoc], hc⟩

theorem parseValue_number {c : Char} (h : NumberHead c) (fuel : Nat) (s : PyStr) :
    parseValue format (fuel + 1) (c :: s) = parseNumber format (c :: s) := by
  rw [parseValue, if_neg (h.ne (by decide)), if_neg (h.ne (by decide)), if_neg (h.ne (by decide)),
    if_neg (h.ne (by decide)), if_neg (h.ne (by decide)), if_neg (h.ne (by decide))]

theorem dumps_starts (level : Nat) (value : Json φ) : Starts ']' (dumps format layout level value) := by
  cases value with
  | null => exact ⟨_, _, rfl, by decide⟩
  | bool b => cases b <;> exact ⟨_, _, rfl, by decide⟩
  | int n =>
    obtain ⟨c, t, h, hc⟩ := decimalInt_head n
    rw [dumps, h]
    exact hc.starts (by decide) t
  | float x =>
    obtain ⟨c, t, h, hc⟩ := repr_head format x
    rw [dumps, h]
    exact hc.starts (by decide) t
  | str s => exact ⟨_, _, rfl, by decide⟩
  | arr items => cases items <;> exact ⟨_, _, rfl, by decide⟩
  | obj entries => cases entries <;> exact ⟨_, _, rfl, by decide⟩

theorem dumpString_starts (s : PyStr) : Starts '\x7d' (dumpString s) := ⟨_, _, rfl, by decide⟩

end

section
variable {φ : Type} (format : FloatFormat φ) (layout : Layout)

theorem stops_items (level outer : Nat) (items : List (Json φ)) (rest : PyStr) :
    Stops (dumpItems format layout level items ++ (layout.newline outer ++ ']' :: rest)) := by
  cases items with
  | nil => exact stops_newline layout _ (by decide) rest
  | cons item items =>
    rw [dumpItems, List.append_assoc, List.append_assoc]
    exact stops_comma layout level _

theorem stops_entries (level outer : Nat) (entries : List (PyStr × Json φ)) (rest : PyStr) :
    Stops (dumpEntries format layout level entries ++ (layout.newline outer ++ '\x7d' :: rest)) := by
  cases entries with
  | nil => exact stops_newline layout _ (by decide) rest
  | cons entry entries =>
    simp only [dumpEntries, List.append_assoc]
    exact stops_comma layout level _

theorem length_comma (level : Nat) : 1 ≤ (layout.comma level).length := by
  obtain ⟨spaces, h, -⟩ := comma_eq layout level
  rw [h, List.length_cons]
  omega

theorem scanColon_append {s : PyStr} (h : Starts ']' s) : scanColon ([':', ' '] ++ s) = some s := by
  obtain ⟨c, t, rfl, hw, -⟩ := h
  have hs : skipWhitespace (' ' :: c :: t) = c :: t :=
    (skipWhitespace_spaces 1 _).trans (skipWhitespace_cons hw t)
  rw [List.cons_append, List.singleton_append, scanColon, skipWhitespace_cons (by decide)]
  simp only [if_true, hs]

/-- One item, and what follows it. -/
theorem parseItems_step {fuel : Nat} {text rest : PyStr} {item : Json φ} {items : List (Json φ)} {s : PyStr}
    (hitem : parseValue format fuel (text ++ s) = some (item, s))
    (hitems : nextElement ']' (parseItems format fuel) s = some (items, rest)) :
    parseItems format (fuel + 1) (text ++ s) = some (item :: items, rest) := by
  rw [parseItems, hitem]
  simp only [Option.bind_eq_bind, Option.bind_some, hitems]

theorem parseEntries_step {fuel : Nat} (key : PyStr) {text rest : PyStr} {value : Json φ}
    {entries : List (PyStr × Json φ)} {s : PyStr} (hkey : key.length < fuel)
    (hstart : Starts ']' text)
    (hvalue : parseValue format fuel (text ++ s) = some (value, s))
    (hentries : nextElement '\x7d' (parseEntries format fuel) s = some (entries, rest)) :
    parseEntries format (fuel + 1) (dumpString key ++ ([':', ' '] ++ (text ++ s))) =
      some ((key, value) :: entries, rest) := by
  rw [parseEntries, dumpString, List.cons_append, scanQuote, if_pos rfl]
  simp only [Option.bind_eq_bind, Option.bind_some, scanString_dumpString key _ _ hkey,
    scanColon_append (hstart.append s), hvalue, hentries]

mutual

/-- **A value reads back**, before anything that cannot continue a number. -/
theorem parseValue_dumps : ∀ (value : Json φ) (level fuel : Nat) (rest : PyStr), Stops rest →
    (dumps format layout level value).length ≤ fuel →
    parseValue format fuel (dumps format layout level value ++ rest) = some (value, rest)
  | .null, level, fuel, rest, _, hf => by
    obtain ⟨fuel, rfl⟩ : ∃ k, fuel = k + 1 := ⟨fuel - 1, by rw [dumps] at hf; simp at hf; omega⟩
    rfl
  | .bool true, level, fuel, rest, _, hf => by
    obtain ⟨fuel, rfl⟩ : ∃ k, fuel = k + 1 := ⟨fuel - 1, by rw [dumps] at hf; simp at hf; omega⟩
    rfl
  | .bool false, level, fuel, rest, _, hf => by
    obtain ⟨fuel, rfl⟩ : ∃ k, fuel = k + 1 := ⟨fuel - 1, by rw [dumps] at hf; simp at hf; omega⟩
    rfl
  | .int n, level, fuel, rest, hr, hf => by
    obtain ⟨c, t, h, hc⟩ := decimalInt_head n
    have hn := parseNumber_decimalInt format n hr
    rw [dumps, h] at hf ⊢
    rw [h] at hn
    obtain ⟨fuel, rfl⟩ : ∃ k, fuel = k + 1 := ⟨fuel - 1, by rw [List.length_cons] at hf; omega⟩
    rw [List.cons_append] at hn ⊢
    rw [parseValue_number format hc, hn]
  | .float x, level, fuel, rest, hr, hf => by
    obtain ⟨c, t, h, hc⟩ := repr_head format x
    have hn := parseNumber_repr format x hr
    rw [dumps, h] at hf ⊢
    rw [h] at hn
    obtain ⟨fuel, rfl⟩ : ∃ k, fuel = k + 1 := ⟨fuel - 1, by rw [List.length_cons] at hf; omega⟩
    rw [List.cons_append] at hn ⊢
    rw [parseValue_number format hc, hn]
  | .str s, level, fuel, rest, _, hf => by
    have hs := length_le_dumpString s
    rw [dumps] at hf ⊢
    obtain ⟨fuel, rfl⟩ : ∃ k, fuel = k + 1 := ⟨fuel - 1, by omega⟩
    rw [dumpString, List.cons_append, parseValue, if_pos rfl,
      scanString_dumpString s rest fuel (by omega)]
    rfl
  | .arr [], level, fuel, rest, _, hf => by
    obtain ⟨fuel, rfl⟩ : ∃ k, fuel = k + 1 := ⟨fuel - 1, by rw [dumps] at hf; simp at hf; omega⟩
    rfl
  | .arr (item :: items), level, fuel, rest, _, hf => by
    rw [dumps] at hf ⊢
    simp only [List.length_cons, List.length_append, List.length_nil] at hf
    obtain ⟨fuel, rfl⟩ : ∃ k, fuel = k + 2 := ⟨fuel - 2, by omega⟩
    have hitem := parseValue_dumps item (level + 1) fuel _
      (stops_items format layout (level + 1) level items rest) (by omega)
    have hitems := parseItems_dumps items (level + 1) level fuel rest (by omega)
    have hstart := ((dumps_starts format layout (level + 1) item).append
      (dumpItems format layout (level + 1) items ++ (layout.newline level ++ ']' :: rest)))
    rw [List.cons_append, parseValue, if_neg (by decide), if_pos rfl]
    simp only [List.append_assoc, List.cons_append, List.nil_append]
    rw [firstElement_starts _ _ _ hstart, parseItems_step format hitem hitems]
    rfl
  | .obj [], level, fuel, rest, _, hf => by
    obtain ⟨fuel, rfl⟩ : ∃ k, fuel = k + 1 := ⟨fuel - 1, by rw [dumps] at hf; simp at hf; omega⟩
    rfl
  | .obj ((key, value) :: entries), level, fuel, rest, _, hf => by
    have hkey := length_le_dumpString key
    rw [dumps] at hf ⊢
    simp only [List.length_cons, List.length_append, List.length_nil] at hf
    obtain ⟨fuel, rfl⟩ : ∃ k, fuel = k + 2 := ⟨fuel - 2, by omega⟩
    have hvalue := parseValue_dumps value (level + 1) fuel _
      (stops_entries format layout (level + 1) level entries rest) (by omega)
    have hentries := parseEntries_dumps entries (level + 1) level fuel rest (by omega)
    have hstart := dumps_starts format layout (level + 1) value
    have hstep := parseEntries_step format key (by omega) hstart hvalue hentries
    rw [List.cons_append, parseValue, if_neg (by decide), if_neg (by decide), if_pos rfl]
    simp only [List.append_assoc, List.cons_append, List.nil_append] at hstep ⊢
    rw [firstElement_starts _ _ _ ((dumpString_starts key).append _), hstep]
    rfl

theorem parseItems_dumps : ∀ (items : List (Json φ)) (level outer fuel : Nat) (rest : PyStr),
    (dumpItems format layout level items).length ≤ fuel →
    nextElement ']' (parseItems format fuel)
      (dumpItems format layout level items ++ (layout.newline outer ++ ']' :: rest)) =
        some (items, rest)
  | [], _, _, _, rest, _ => nextElement_close _ _ _ (by decide) (by decide) rest
  | item :: items, level, outer, fuel, rest, hf => by
    have hcomma := length_comma layout level
    rw [dumpItems] at hf ⊢
    simp only [List.length_append] at hf
    obtain ⟨fuel, rfl⟩ : ∃ k, fuel = k + 1 := ⟨fuel - 1, by omega⟩
    have hitem := parseValue_dumps item level fuel _ (stops_items format layout level outer items rest)
      (by omega)
    have hitems := parseItems_dumps items level outer fuel rest (by omega)
    have hstart := ((dumps_starts format layout level item).append
      (dumpItems format layout level items ++ (layout.newline outer ++ ']' :: rest)))
    simp only [List.append_assoc]
    rw [nextElement_comma _ _ _ hstart, parseItems_step format hitem hitems]

theorem parseEntries_dumps : ∀ (entries : List (PyStr × Json φ)) (level outer fuel : Nat) (rest : PyStr),
    (dumpEntries format layout level entries).length ≤ fuel →
    nextElement '\x7d' (parseEntries format fuel)
      (dumpEntries format layout level entries ++ (layout.newline outer ++ '\x7d' :: rest)) =
        some (entries, rest)
  | [], _, _, _, rest, _ => nextElement_close _ _ _ (by decide) (by decide) rest
  | (key, value) :: entries, level, outer, fuel, rest, hf => by
    have hcomma := length_comma layout level
    have hkey := length_le_dumpString key
    rw [dumpEntries] at hf ⊢
    simp only [List.length_append] at hf
    obtain ⟨fuel, rfl⟩ : ∃ k, fuel = k + 1 := ⟨fuel - 1, by omega⟩
    have hvalue := parseValue_dumps value level fuel _ (stops_entries format layout level outer entries rest)
      (by omega)
    have hentries := parseEntries_dumps entries level outer fuel rest (by omega)
    have hstart := dumps_starts format layout level value
    have hstep := parseEntries_step format key (by omega) hstart hvalue hentries
    simp only [List.append_assoc] at hstep ⊢
    rw [nextElement_comma _ _ _ ((dumpString_starts key).append _), hstep]

end

/-- **A text reads back**, also before trailing white space. -/
theorem loads_dumps (value : Json φ) {rest : PyStr} (hr : rest = [] ∨ rest = ['\n']) :
    loads format (dumps format layout 0 value ++ rest) = some value := by
  obtain ⟨c, t, ht, hw, -⟩ := dumps_starts format layout 0 value
  have hstop : Stops rest := by
    rcases hr with rfl | rfl
    · intro c hc
      cases hc
    · intro c hc
      cases hc
      decide
  have hskip : skipWhitespace (dumps format layout 0 value ++ rest) =
      dumps format layout 0 value ++ rest := by
    rw [ht, List.cons_append, skipWhitespace_cons hw]
  have hparse := parseValue_dumps format layout value 0
    ((dumps format layout 0 value ++ rest).length + 1) rest hstop (by rw [List.length_append]; omega)
  rw [loads, hskip, hparse]
  rcases hr with rfl | rfl <;> rfl

end

/-! ## Characters -/

/-- Printable ASCII, and line feeds where the layout has them. -/
def Ink (layout : Layout) (c : Char) : Prop :=
  (0x20 ≤ c.toNat ∧ c.toNat ≤ 0x7e) ∨ (layout.indent ≠ none ∧ c = '\n')

section
variable {layout : Layout}

theorem ink_digits {s : PyStr} (h : AllDigits s) : ∀ c ∈ s, Ink layout c := by
  intro c hc
  obtain ⟨h0, h9⟩ := Char.isDigit_iff_toNat.1 (h c hc)
  have e0 : '0'.toNat = 48 := rfl
  have e9 : '9'.toNat = 57 := rfl
  exact Or.inl (by omega)

theorem ink_sign (negative : Bool) : ∀ c ∈ signText negative, Ink layout c := by
  intro c hc
  cases negative <;> simp [signText] at hc
  subst hc
  exact Or.inl (by decide)

theorem ink_newline (level : Nat) : ∀ c ∈ layout.newline level, Ink layout c := by
  intro c hc
  unfold Layout.newline at hc
  split at hc
  · cases hc
  · next n hn =>
    rcases List.mem_cons.1 hc with rfl | hc
    · exact Or.inr ⟨by simp [hn], rfl⟩
    · rw [List.eq_of_mem_replicate hc]
      exact Or.inl (by decide)

theorem ink_comma (level : Nat) : ∀ c ∈ layout.comma level, Ink layout c := by
  intro c hc
  unfold Layout.comma at hc
  split at hc
  · simp only [List.mem_cons, List.not_mem_nil, or_false] at hc
    rcases hc with rfl | rfl <;> exact Or.inl (by decide)
  · rcases List.mem_cons.1 hc with rfl | hc
    · exact Or.inl (by decide)
    · exact ink_newline level c hc

theorem ink_hexQuad (n : Nat) : ∀ c ∈ hexQuad n, Ink layout c := by
  have hdigit : ∀ k, k < 16 → 0x20 ≤ (hexDigits.getD k '0').toNat ∧
      (hexDigits.getD k '0').toNat ≤ 0x7e := by decide
  intro c hc
  simp only [hexQuad, List.mem_cons, List.not_mem_nil, or_false] at hc
  rcases hc with rfl | rfl | rfl | rfl <;> exact Or.inl (hdigit _ (Nat.mod_lt _ (by decide)))

theorem ink_unicodeEscape (n : Nat) : ∀ c ∈ unicodeEscape n, Ink layout c := by
  intro c hc
  simp only [unicodeEscape, List.mem_cons] at hc
  rcases hc with rfl | rfl | hc
  · exact Or.inl (by decide)
  · exact Or.inl (by decide)
  · exact ink_hexQuad n c hc

theorem ink_escapeChar (a : Char) : ∀ c ∈ escapeChar a, Ink layout c := by
  have hpair : ∀ b : Char, (0x20 ≤ b.toNat ∧ b.toNat ≤ 0x7e) → ∀ c ∈ ['\\', b], Ink layout c := by
    intro b hb c hc
    simp only [List.mem_cons, List.not_mem_nil, or_false] at hc
    rcases hc with rfl | rfl
    · exact Or.inl (by decide)
    · exact Or.inl hb
  intro c hc
  unfold escapeChar at hc
  repeat' split at hc
  · exact hpair '"' (by decide) c hc
  · exact hpair '\\' (by decide) c hc
  · exact hpair 'n' (by decide) c hc
  · exact hpair 'r' (by decide) c hc
  · exact hpair 't' (by decide) c hc
  · exact hpair 'f' (by decide) c hc
  · exact hpair 'b' (by decide) c hc
  · next h =>
    rw [List.mem_singleton.1 hc]
    exact Or.inl h
  · exact ink_unicodeEscape _ c hc
  · rcases List.mem_append.1 hc with hc | hc <;> exact ink_unicodeEscape _ c hc

theorem ink_dumpString (s : PyStr) : ∀ c ∈ dumpString s, Ink layout c := by
  have hquote : Ink layout '"' := Or.inl (by decide)
  intro c hc
  simp only [dumpString, List.mem_cons, List.mem_append, List.mem_flatMap, List.not_mem_nil,
    or_false] at hc
  rcases hc with rfl | ⟨a, -, hc⟩ | rfl
  · exact hquote
  · exact ink_escapeChar a c hc
  · exact hquote

theorem ink_fraction {s : PyStr} (h : Fraction s) : ∀ c ∈ s, Ink layout c := by
  cases h with
  | none => simp
  | some hd _ =>
    intro c hc
    rcases List.mem_cons.1 hc with rfl | hc
    · exact Or.inl (by decide)
    · exact ink_digits hd c hc

theorem ink_exponent {s : PyStr} (h : Exponent s) : ∀ c ∈ s, Ink layout c := by
  cases h with
  | none => simp
  | some hsign hd _ =>
    intro c hc
    rcases List.mem_cons.1 hc with rfl | hc
    · exact Or.inl (by decide)
    · rcases List.mem_append.1 hc with hc | hc
      · rcases hsign with rfl | rfl | rfl <;> simp at hc <;> subst hc <;> exact Or.inl (by decide)
      · exact ink_digits hd c hc

theorem ink_decimalInt (n : Int) : ∀ c ∈ decimalInt n, Ink layout c := by
  cases n with
  | ofNat n => exact ink_digits (decimal_digits n)
  | negSucc n =>
    intro c hc
    rcases List.mem_cons.1 hc with rfl | hc
    · exact Or.inl (by decide)
    · exact ink_digits (decimal_digits _) c hc

theorem ink_literal {s : PyStr} (h : FloatLiteral s) : ∀ c ∈ s, Ink layout c := by
  obtain ⟨negative, n, fraction, exponent, hf, he, -, rfl⟩ := h
  intro c hc
  simp only [List.mem_append] at hc
  rcases hc with ((hc | hc) | hc) | hc
  · exact ink_sign negative c hc
  · exact ink_digits (decimal_digits n) c hc
  · exact ink_fraction hf c hc
  · exact ink_exponent he c hc

end

section
variable {φ : Type} (format : FloatFormat φ) (layout : Layout)

mutual

theorem ink_dumps : ∀ (value : Json φ) (level : Nat), ∀ c ∈ dumps format layout level value, Ink layout c
  | .null, _, c, hc | .bool true, _, c, hc | .bool false, _, c, hc | .arr [], _, c, hc
  | .obj [], _, c, hc => by
    simp only [dumps, List.mem_cons, List.not_mem_nil, or_false] at hc
    rcases hc with rfl | rfl | rfl | rfl | rfl <;> exact Or.inl (by decide)
  | .int n, _, c, hc => ink_decimalInt n c (by rwa [dumps] at hc)
  | .float x, _, c, hc => ink_literal (format.literal x) c (by rwa [dumps] at hc)
  | .str s, _, c, hc => ink_dumpString s c (by rwa [dumps] at hc)
  | .arr (item :: items), level, c, hc => by
    simp only [dumps, List.mem_cons, List.mem_append, List.not_mem_nil, or_false] at hc
    rcases hc with rfl | (((hc | hc) | hc) | hc) | rfl
    · exact Or.inl (by decide)
    · exact ink_newline _ c hc
    · exact ink_dumps item _ c hc
    · exact ink_dumpItems items _ c hc
    · exact ink_newline _ c hc
    · exact Or.inl (by decide)
  | .obj ((key, value) :: entries), level, c, hc => by
    simp only [dumps, List.mem_cons, List.mem_append, List.not_mem_nil, or_false] at hc
    rcases hc with rfl | ((((((hc | hc) | rfl | rfl) | hc) | hc) | hc) | rfl)
    · exact Or.inl (by decide)
    · exact ink_newline _ c hc
    · exact ink_dumpString key c hc
    · exact Or.inl (by decide)
    · exact Or.inl (by decide)
    · exact ink_dumps value _ c hc
    · exact ink_dumpEntries entries _ c hc
    · exact ink_newline _ c hc
    · exact Or.inl (by decide)

theorem ink_dumpItems : ∀ (items : List (Json φ)) (level : Nat),
    ∀ c ∈ dumpItems format layout level items, Ink layout c
  | [], _, _, hc => by cases hc
  | item :: items, level, c, hc => by
    simp only [dumpItems, List.mem_append] at hc
    rcases hc with (hc | hc) | hc
    · exact ink_comma _ c hc
    · exact ink_dumps item _ c hc
    · exact ink_dumpItems items _ c hc

theorem ink_dumpEntries : ∀ (entries : List (PyStr × Json φ)) (level : Nat),
    ∀ c ∈ dumpEntries format layout level entries, Ink layout c
  | [], _, _, hc => by cases hc
  | (key, value) :: entries, level, c, hc => by
    simp only [dumpEntries, List.mem_cons, List.mem_append, List.not_mem_nil, or_false] at hc
    rcases hc with (((hc | hc) | rfl | rfl) | hc) | hc
    · exact ink_comma _ c hc
    · exact ink_dumpString key c hc
    · exact Or.inl (by decide)
    · exact Or.inl (by decide)
    · exact ink_dumps value _ c hc
    · exact ink_dumpEntries entries _ c hc

end

/-- **A compact text is one line.** -/
theorem dumps_line (value : Json φ) : '\n' ∉ dumps format ⟨none⟩ 0 value := by
  intro hc
  rcases ink_dumps format ⟨none⟩ value 0 _ hc with h | ⟨h, -⟩
  · exact absurd h (by decide)
  · exact h rfl

end

/-! ## Members -/

section
variable {φ : Type}

/-- `value[key]`; of a repeated key `json.loads` keeps the last value. -/
def Json.get (key : PyStr) : Json φ → Option (Json φ)
  | .obj entries => Dict.lookupItem key entries.reverse
  | _ => none

def Json.asNat : Json φ → Option Nat
  | .int (.ofNat n) => some n
  | _ => none

def Json.asBool : Json φ → Option Bool
  | .bool b => some b
  | _ => none

def Json.asFloat : Json φ → Option φ
  | .float x => some x
  | _ => none

def Json.asStr : Json φ → Option PyStr
  | .str s => some s
  | _ => none

def Json.asArr : Json φ → Option (List (Json φ))
  | .arr items => some items
  | _ => none

/-- `sorted(entries)` puts this entry before the first with a key that is not less. -/
def insertEntry (entry : PyStr × Json φ) : List (PyStr × Json φ) → List (PyStr × Json φ)
  | [] => [entry]
  | e :: entries =>
    if e.1.lex entry.1 (·.val < ·.val) then e :: insertEntry entry entries else entry :: e :: entries

mutual

/-- What `sort_keys=True` does to a value. -/
def sortKeys : Json φ → Json φ
  | .arr items => .arr (sortKeysItems items)
  | .obj entries => .obj (sortKeysEntries entries)
  | value => value

def sortKeysItems : List (Json φ) → List (Json φ)
  | [] => []
  | item :: items => sortKeys item :: sortKeysItems items

def sortKeysEntries : List (PyStr × Json φ) → List (PyStr × Json φ)
  | [] => []
  | (key, value) :: entries => insertEntry (key, sortKeys value) (sortKeysEntries entries)

end

theorem insertEntry_perm (entry : PyStr × Json φ) (entries : List (PyStr × Json φ)) :
    (insertEntry entry entries).Perm (entry :: entries) := by
  induction entries with
  | nil => exact List.Perm.refl _
  | cons e entries ih =>
    unfold insertEntry
    split
    · exact (ih.cons e).trans (List.Perm.swap entry e entries)
    · exact List.Perm.refl _

theorem sortKeysEntries_perm (entries : List (PyStr × Json φ)) :
    (sortKeysEntries entries).Perm (entries.map fun e => (e.1, sortKeys e.2)) := by
  induction entries with
  | nil => exact List.Perm.refl _
  | cons e entries ih =>
    rw [sortKeysEntries, List.map_cons]
    exact (insertEntry_perm _ _).trans (ih.cons _)

/-- A member under a key that is not repeated. -/
theorem get_of_mem {entries : List (PyStr × Json φ)} (h : (entries.map Prod.fst).Nodup) {key : PyStr}
    {value : Json φ} (hm : (key, value) ∈ entries) : (Json.obj entries).get key = some value := by
  rw [Json.get, Dict.lookupItem_eq_some_iff _ _ _ (by rwa [List.map_reverse, List.nodup_reverse]),
    List.mem_reverse]
  exact hm

/-- **Sorting the keys moves no member.** -/
theorem get_sortKeys {entries : List (PyStr × Json φ)} (h : (entries.map Prod.fst).Nodup) {key : PyStr}
    {value : Json φ} (hm : (key, value) ∈ entries) :
    (sortKeys (.obj entries)).get key = some (sortKeys value) := by
  have hp := sortKeysEntries_perm entries
  rw [sortKeys]
  apply get_of_mem
  · rw [(hp.map Prod.fst).nodup_iff, List.map_map]
    exact h
  · rw [hp.mem_iff]
    exact List.mem_map_of_mem hm

end

end Py
