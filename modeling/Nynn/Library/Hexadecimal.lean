import Mathlib.Tactic.Ring
import Mathlib.Data.Nat.Notation

/-!
# Hexadecimal numerals

Numbers as lower-case hexadecimal numerals of a fixed width, and the reading of the longest prefix
of hexadecimal digits, as the C library does it.

## Main definitions

* `Hexadecimal.toHex`, `Hexadecimal.ofHex`.

## Main results

* `Hexadecimal.ofHex_toHex`: the round trip.
* `Hexadecimal.ofHex_toHex_append`: the reading stops behind the digits.
-/

namespace Hexadecimal

/-- The digit of a number below sixteen. -/
def digit (n : ℕ) : Char := if n < 10 then Char.ofNat (48 + n) else Char.ofNat (87 + n)

/-- The value of a digit, in lower or upper case. -/
def value (ch : Char) : Option ℕ :=
  let n := ch.toNat
  if 48 ≤ n ∧ n ≤ 57 then some (n - 48)
  else if 97 ≤ n ∧ n ≤ 102 then some (n - 87)
  else if 65 ≤ n ∧ n ≤ 70 then some (n - 55)
  else none

theorem value_digit {n : ℕ} (h : n < 16) : value (digit n) = some n := by
  revert n
  decide

/-- The last `w` digits of a number. -/
def toHex : ℕ → ℕ → List Char
  | 0, _ => []
  | w + 1, n => digit (n / 16 ^ w % 16) :: toHex w n

/-- Read digits behind a number that was read before. -/
def readHex : ℕ → List Char → ℕ
  | n, [] => n
  | n, ch :: rest =>
    match value ch with
    | some d => readHex (16 * n + d) rest
    | none => n

/-- The number whose digits are the longest prefix of digits. -/
def ofHex (l : List Char) : ℕ := readHex 0 l

@[simp] theorem length_toHex (w n : ℕ) : (toHex w n).length = w := by
  induction w with
  | zero => rfl
  | succ w ih => rw [toHex, List.length_cons, ih]

/-- The digits are read, and then what is behind them. -/
theorem readHex_toHex_append (m w n : ℕ) (rest : List Char) :
    readHex m (toHex w n ++ rest) = readHex (m * 16 ^ w + n % 16 ^ w) rest := by
  induction w generalizing m with
  | zero => simp [toHex, Nat.mod_one]
  | succ w ih =>
    have hdigit := value_digit (Nat.mod_lt (n / 16 ^ w) (show 16 > 0 by norm_num))
    rw [toHex, List.cons_append, readHex, hdigit]
    dsimp only
    rw [ih, pow_succ, Nat.mod_mul]
    congr 1
    ring

/-- **Round trip.** -/
theorem ofHex_toHex {w n : ℕ} (h : n < 16 ^ w) : ofHex (toHex w n) = n := by
  have hread := readHex_toHex_append 0 w n []
  rw [List.append_nil, Nat.zero_mul, Nat.zero_add, Nat.mod_eq_of_lt h] at hread
  exact hread

/-- The reading stops in front of a character that is no digit. -/
theorem ofHex_toHex_append {w n : ℕ} (h : n < 16 ^ w) {ch : Char} (hch : value ch = none)
    (rest : List Char) : ofHex (toHex w n ++ ch :: rest) = n := by
  rw [ofHex, readHex_toHex_append, Nat.zero_mul, Nat.zero_add, Nat.mod_eq_of_lt h, readHex, hch]

end Hexadecimal
