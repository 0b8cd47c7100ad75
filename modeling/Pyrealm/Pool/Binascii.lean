import Pyrealm.Pool.PyBytes

/-!
# Bytes as text

Hexadecimal digits and standard Base64, as `binascii` and `base64` write them.

    unhexlify (hexlify bs) = bs          (unhexlify_hexlify)
    b64decode (b64encode bs) = bs        (b64decode_b64encode)
-/

namespace Py

/-! ## Hexadecimal -/

def hexDigits : List Char := "0123456789abcdef".toList

/-- `binascii.hexlify(bs)`, as text. -/
def hexlify (bs : Bytes) : List Char :=
  bs.flatMap fun b => [hexDigits.getD (b.toNat / 16) '0', hexDigits.getD (b.toNat % 16) '0']

/-- `binascii.unhexlify(text)` of text that `hexlify` wrote. -/
def unhexlify : List Char → Bytes
  | high :: low :: text =>
    UInt8.ofNat (16 * hexDigits.idxOf high + hexDigits.idxOf low) :: unhexlify text
  | _ => []

theorem idxOf_hexDigits : ∀ n, n < 16 → hexDigits.idxOf (hexDigits.getD n '0') = n := by decide

theorem hexlify_cons (b : UInt8) (bs : Bytes) :
    hexlify (b :: bs) = hexDigits.getD (b.toNat / 16) '0' :: hexDigits.getD (b.toNat % 16) '0' ::
      hexlify bs := rfl

/-- **Hexadecimal text reads back.** -/
theorem unhexlify_hexlify (bs : Bytes) : unhexlify (hexlify bs) = bs := by
  induction bs with
  | nil => rfl
  | cons b bs ih =>
    have hb := b.toNat_lt
    have hbyte : 16 * (b.toNat / 16) + b.toNat % 16 = b.toNat := by omega
    rw [hexlify_cons, unhexlify, ih, idxOf_hexDigits _ (by omega), idxOf_hexDigits _ (by omega),
      hbyte, UInt8.ofNat_toNat]

theorem mem_hexDigits : ∀ n, n < 16 → hexDigits.getD n '0' ∈ hexDigits := by decide

theorem hexlify_subset (bs : Bytes) : ∀ c ∈ hexlify bs, c ∈ hexDigits := by
  intro c hc
  obtain ⟨b, -, hc⟩ := List.mem_flatMap.mp hc
  have hb := b.toNat_lt
  rcases List.mem_cons.mp hc with rfl | hc
  · exact mem_hexDigits _ (by omega)
  · rw [List.mem_singleton] at hc
    subst hc
    exact mem_hexDigits _ (by omega)

/-! ## Base64 -/

def b64alphabet : List Char :=
  "ABCDEFGHIJKLMNOPQRSTUVWXYZabcdefghijklmnopqrstuvwxyz0123456789+/".toList

/-- The digit of six bits. -/
def sextet (n : Nat) : Char := b64alphabet.getD n '='

/-- `base64.b64encode(bs).decode("ascii")` -/
def b64encode : Bytes → List Char
  | a :: b :: c :: bs =>
    sextet (a.toNat / 4) :: sextet (a.toNat % 4 * 16 + b.toNat / 16) ::
      sextet (b.toNat % 16 * 4 + c.toNat / 64) :: sextet (c.toNat % 64) :: b64encode bs
  | [a, b] =>
    [sextet (a.toNat / 4), sextet (a.toNat % 4 * 16 + b.toNat / 16), sextet (b.toNat % 16 * 4), '=']
  | [a] => [sextet (a.toNat / 4), sextet (a.toNat % 4 * 16), '=', '=']
  | [] => []

/-- `base64.b64decode(text)` of text that `b64encode` wrote. -/
def b64decode : List Char → Bytes
  | w :: x :: y :: z :: text =>
    let w := b64alphabet.idxOf w
    let x := b64alphabet.idxOf x
    let first := UInt8.ofNat (w * 4 + x / 16)
    if y = '=' then [first]
    else
      let y := b64alphabet.idxOf y
      let second := UInt8.ofNat (x % 16 * 16 + y / 4)
      if z = '=' then [first, second]
      else first :: second :: UInt8.ofNat (y % 4 * 64 + b64alphabet.idxOf z) :: b64decode text
  | _ => []

theorem sextet_all : ∀ n, n < 64 → b64alphabet.idxOf (sextet n) = n ∧ sextet n ≠ '=' := by decide

theorem idxOf_sextet {n : Nat} (h : n < 64) : b64alphabet.idxOf (sextet n) = n := (sextet_all n h).1

theorem sextet_ne {n : Nat} (h : n < 64) : sextet n ≠ '=' := (sextet_all n h).2

theorem ofNat_eq {b : UInt8} {n : Nat} (h : n = b.toNat) : UInt8.ofNat n = b := by
  rw [h, UInt8.ofNat_toNat]

/-- **Base64 text reads back.** -/
theorem b64decode_b64encode (bs : Bytes) : b64decode (b64encode bs) = bs := by
  induction bs using b64encode.induct with
  | case1 a b c bs ih =>
    have ha := a.toNat_lt
    have hb := b.toNat_lt
    have hc := c.toNat_lt
    simp only [b64encode, b64decode, idxOf_sextet (show a.toNat / 4 < 64 by omega),
      idxOf_sextet (show a.toNat % 4 * 16 + b.toNat / 16 < 64 by omega),
      idxOf_sextet (show b.toNat % 16 * 4 + c.toNat / 64 < 64 by omega),
      idxOf_sextet (show c.toNat % 64 < 64 by omega),
      if_neg (sextet_ne (show b.toNat % 16 * 4 + c.toNat / 64 < 64 by omega)),
      if_neg (sextet_ne (show c.toNat % 64 < 64 by omega)), ih]
    rw [ofNat_eq (b := a) (by omega), ofNat_eq (b := b) (by omega), ofNat_eq (b := c) (by omega)]
  | case2 a b =>
    have ha := a.toNat_lt
    have hb := b.toNat_lt
    simp only [b64encode, b64decode, idxOf_sextet (show a.toNat / 4 < 64 by omega),
      idxOf_sextet (show a.toNat % 4 * 16 + b.toNat / 16 < 64 by omega),
      idxOf_sextet (show b.toNat % 16 * 4 < 64 by omega),
      if_neg (sextet_ne (show b.toNat % 16 * 4 < 64 by omega)), if_true]
    rw [ofNat_eq (b := a) (by omega), ofNat_eq (b := b) (by omega)]
  | case3 a =>
    have ha := a.toNat_lt
    simp only [b64encode, b64decode, idxOf_sextet (show a.toNat / 4 < 64 by omega),
      idxOf_sextet (show a.toNat % 4 * 16 < 64 by omega), if_true]
    rw [ofNat_eq (b := a) (by omega)]
  | case4 => rfl

end Py
