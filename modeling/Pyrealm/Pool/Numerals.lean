import Pyrealm.Pool.PyBytes

/-!
# Decimal numerals

`str(n)` of an integer, and the digits a text starts with.

* `digitsValue_decimal`: a numeral reads back.
* `splitDigits_append`: digits in front of anything else are found.
* `decimal_head`: only zero starts with the digit 0.
-/

namespace Py

/-- `str(n)` of a natural number. -/
def decimal (n : Nat) : PyStr := Nat.toDigits 10 n

/-- `str(n)` -/
def decimalInt : Int → PyStr
  | .ofNat n => decimal n
  | .negSucc n => '-' :: decimal (n + 1)

def digitsValue (digits : PyStr) : Nat := Nat.ofDigitChars 10 digits 0

/-- The digits in front, and the rest. -/
def splitDigits (s : PyStr) : PyStr × PyStr := (s.takeWhile Char.isDigit, s.dropWhile Char.isDigit)

/-- A text that does not start with a digit. -/
def NoDigit (s : PyStr) : Prop := ∀ c ∈ s.head?, c.isDigit = false

def AllDigits (s : PyStr) : Prop := ∀ c ∈ s, c.isDigit = true

theorem digitsValue_decimal (n : Nat) : digitsValue (decimal n) = n := Nat.ofDigitChars_ten_toDigits

theorem decimal_ne_nil (n : Nat) : decimal n ≠ [] := Nat.toDigits_ne_nil

theorem decimal_digits (n : Nat) : AllDigits (decimal n) := fun _ hc =>
  Nat.isDigit_of_mem_toDigits (by decide) (by decide) hc

theorem splitDigits_append {digits rest : PyStr} (hd : AllDigits digits) (hr : NoDigit rest) :
    splitDigits (digits ++ rest) = (digits, rest) := by
  induction digits with
  | nil =>
    cases rest with
    | nil => rfl
    | cons c rest =>
      have hc : c.isDigit = false := hr c rfl
      simp [splitDigits, hc]
  | cons c digits ih =>
    have hc : c.isDigit = true := hd c List.mem_cons_self
    have hrest := ih fun x hx => hd x (List.mem_cons_of_mem _ hx)
    simp only [splitDigits, Prod.mk.injEq] at hrest
    simp [splitDigits, hc, hrest.1, hrest.2]

/-- A numeral that starts with 0 is that of zero. -/
theorem decimal_head {n : Nat} {digits : PyStr} (h : decimal n = '0' :: digits) :
    n = 0 ∧ digits = [] := by
  induction n using Nat.strongRecOn generalizing digits with
  | _ n ih =>
    by_cases hn : n < 10
    · rw [decimal, Nat.toDigits_of_lt_base hn, List.cons.injEq] at h
      have hzero : ∀ d, d < 10 → Nat.digitChar d = '0' → d = 0 := by decide
      exact ⟨hzero n hn h.1, h.2.symm⟩
    · rw [decimal, Nat.toDigits_of_base_le (by decide) (by omega)] at h
      obtain ⟨c, digits', hd⟩ := List.exists_cons_of_ne_nil (decimal_ne_nil (n / 10))
      rw [decimal] at hd
      rw [hd, List.cons_append, List.cons.injEq] at h
      -- the quotient starts with the same digit, and is not zero
      have hq := ih (n / 10) (by omega) (hd.trans (by rw [h.1]))
      omega

end Py
