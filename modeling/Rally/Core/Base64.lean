/-
Base64: three bytes make four characters, with `=` in the place of what is missing at the end.

- `decode_encode`: what was encoded is decoded.
-/
import Mathlib.Tactic

namespace Base64

/-- the characters of the six-bit values -/
def alphabet : List Char := "ABCDEFGHIJKLMNOPQRSTUVWXYZabcdefghijklmnopqrstuvwxyz0123456789+/".toList

def char (n : ℕ) : Char := alphabet.getD n 'A'

def value (c : Char) : Option ℕ := if c ∈ alphabet then some (alphabet.idxOf c) else none

/-- `base64.b64encode` -/
def encode : List UInt8 → List Char
  | [] => []
  | [a] => [char (a.toNat / 4), char (a.toNat % 4 * 16), '=', '=']
  | [a, b] => [char (a.toNat / 4), char (a.toNat % 4 * 16 + b.toNat / 16), char (b.toNat % 16 * 4), '=']
  | a :: b :: c :: rest =>
    char (a.toNat / 4) :: char (a.toNat % 4 * 16 + b.toNat / 16) :: char (b.toNat % 16 * 4 + c.toNat / 64) ::
      char (c.toNat % 64) :: encode rest

/-- the bytes of four characters -/
def decodeGroup (w x y z : Char) : Option (List UInt8) := do
  let w ← value w
  let x ← value x
  let first := UInt8.ofNat (w * 4 + x / 16)
  if y = '=' ∧ z = '=' then some [first] else
    let y ← value y
    let second := UInt8.ofNat (x % 16 * 16 + y / 4)
    if z = '=' then some [first, second] else
      let z ← value z
      some [first, second, UInt8.ofNat (y % 4 * 64 + z)]

def decode : List Char → Option (List UInt8)
  | [] => some []
  | w :: x :: y :: z :: rest => do
    let group ← decodeGroup w x y z
    let bytes ← decode rest
    some (group ++ bytes)
  | _ => none

theorem value_char {n : ℕ} (h : n < 64) : value (char n) = some n ∧ char n ≠ '=' := by
  interval_cases n <;> decide

theorem ofNat_toNat {a : UInt8} {n : ℕ} (h : n = a.toNat) : UInt8.ofNat n = a := by
  rw [h, UInt8.ofNat_toNat]

theorem decodeGroup_three (a b c : UInt8) :
    decodeGroup (char (a.toNat / 4)) (char (a.toNat % 4 * 16 + b.toNat / 16)) (char (b.toNat % 16 * 4 + c.toNat / 64))
      (char (c.toNat % 64)) = some [a, b, c] := by
  have ha := a.toNat_lt
  have hb := b.toNat_lt
  have hc := c.toNat_lt
  have hy := value_char (n := b.toNat % 16 * 4 + c.toNat / 64) (by omega)
  have hz := value_char (n := c.toNat % 64) (by omega)
  rw [decodeGroup, (value_char (by omega)).1, (value_char (by omega)).1]
  simp only [Option.bind_eq_bind, Option.bind_some, hy.1, hz.1, hy.2, hz.2, false_and, if_false]
  rw [ofNat_toNat (a := a) (by omega), ofNat_toNat (a := b) (by omega), ofNat_toNat (a := c) (by omega)]

theorem decodeGroup_two (a b : UInt8) :
    decodeGroup (char (a.toNat / 4)) (char (a.toNat % 4 * 16 + b.toNat / 16)) (char (b.toNat % 16 * 4)) '=' =
      some [a, b] := by
  have ha := a.toNat_lt
  have hb := b.toNat_lt
  have hy := value_char (n := b.toNat % 16 * 4) (by omega)
  rw [decodeGroup, (value_char (by omega)).1, (value_char (by omega)).1]
  simp only [Option.bind_eq_bind, Option.bind_some, hy.1, hy.2, false_and, if_false, if_true]
  rw [ofNat_toNat (a := a) (by omega), ofNat_toNat (a := b) (by omega)]

theorem decodeGroup_one (a : UInt8) :
    decodeGroup (char (a.toNat / 4)) (char (a.toNat % 4 * 16)) '=' '=' = some [a] := by
  have ha := a.toNat_lt
  rw [decodeGroup, (value_char (by omega)).1, (value_char (by omega)).1]
  simp only [Option.bind_eq_bind, Option.bind_some, and_self, if_true]
  rw [ofNat_toNat (a := a) (by omega)]

/-- **What was encoded is decoded.** -/
theorem decode_encode (bytes : List UInt8) : decode (encode bytes) = some bytes := by
  induction bytes using encode.induct with
  | case1 => rfl
  | case2 a => simp [encode, decode, decodeGroup_one]
  | case3 a b => simp [encode, decode, decodeGroup_two]
  | case4 a b c rest ih => simp [encode, decode, decodeGroup_three, ih]

end Base64
