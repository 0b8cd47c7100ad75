import Pyrealm.Pool.PyCodec

/-!
# Text files

Files opened with `encoding="utf-8"`: with the default `newline`, line feeds are
written as `os.linesep` and every line end is read as a line feed.

* `readTextFile_textFile`: a text without carriage returns reads back.
* `textLines_lines`: so do its lines.
-/

namespace Py

/-- `os.linesep` -/
inductive Linesep where
  | lf
  | crlf
deriving DecidableEq, Repr

def Linesep.text : Linesep → PyStr
  | .lf => ['\n']
  | .crlf => ['\r', '\n']

/-- What `file.write(s)` hands to the encoder. -/
def translate (linesep : Linesep) (s : PyStr) : PyStr :=
  s.flatMap fun c => if c = '\n' then linesep.text else [c]

/-- Universal newlines. -/
def untranslate : PyStr → PyStr
  | [] => []
  | '\r' :: '\n' :: s => '\n' :: untranslate s
  | '\r' :: s => '\n' :: untranslate s
  | c :: s => c :: untranslate s

/-- `open(path, "w", encoding="utf-8")` -/
def textFile (linesep : Linesep) (s : PyStr) : Bytes := encodeUtf8 (translate linesep s)

/-- `open(path, encoding="utf-8").read()` -/
def readTextFile (bs : Bytes) : Option PyStr := (decodeUtf8 bs).map untranslate

/-- `for line in file`; a line keeps its end. -/
def textLines : PyStr → List PyStr
  | [] => []
  | c :: s =>
    if c = '\n' then [c] :: textLines s
    else match textLines s with
      | [] => [[c]]
      | line :: lines => (c :: line) :: lines

theorem untranslate_translate (linesep : Linesep) {s : PyStr} (h : '\r' ∉ s) :
    untranslate (translate linesep s) = s := by
  induction s with
  | nil => rfl
  | cons c s ih =>
    have hrest := ih fun hm => h (List.mem_cons_of_mem _ hm)
    rw [translate] at hrest
    rw [translate, List.flatMap_cons]
    by_cases hc : c = '\n'
    · subst hc
      rw [if_pos rfl]
      cases linesep <;> exact congrArg (List.cons '\n') hrest
    · have hcr : c ≠ '\r' := fun hcr => h (hcr ▸ List.mem_cons_self)
      rw [if_neg hc, List.singleton_append, untranslate, hrest]
      · exact fun _ hcr' _ => hcr hcr'
      · exact hcr

theorem decodeUtf8_encodeUtf8 (s : PyStr) : decodeUtf8 (encodeUtf8 s) = some s :=
  (decodeUtf8_eq_some_iff _ _).mpr rfl

/-- **A text reads back**, whichever line ends the platform has. -/
theorem readTextFile_textFile (linesep : Linesep) {s : PyStr} (h : '\r' ∉ s) :
    readTextFile (textFile linesep s) = some s := by
  rw [readTextFile, textFile, decodeUtf8_encodeUtf8, Option.map_some, untranslate_translate linesep h]

theorem textLines_line {line : PyStr} (h : '\n' ∉ line) (s : PyStr) :
    textLines (line ++ '\n' :: s) = (line ++ ['\n']) :: textLines s := by
  induction line with
  | nil => exact if_pos rfl
  | cons c line ih =>
    have hc : c ≠ '\n' := fun hc => h (hc ▸ List.mem_cons_self)
    rw [List.cons_append, textLines, if_neg hc, ih fun hm => h (List.mem_cons_of_mem _ hm)]
    rfl

/-- **Lines read back.** -/
theorem textLines_lines {α : Type} {line : α → PyStr} (h : ∀ a, '\n' ∉ line a) (items : List α) :
    textLines (items.flatMap fun a => line a ++ ['\n']) = items.map fun a => line a ++ ['\n'] := by
  induction items with
  | nil => rfl
  | cons a items ih =>
    rw [List.flatMap_cons, List.append_assoc, List.singleton_append, textLines_line (h a), ih, List.map_cons]

end Py
