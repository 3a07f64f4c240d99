import Mathlib.Algebra.Group.Int.Defs
import Mathlib.Data.Char
import Mathlib.Data.List.DropRight

/-!
# Texts

The functions on C strings that the daemon and the storage share.

Source: `chop`, `ltrim` and `rtrim` in `public.cpp` and in `nynn_mm_common.h`.

## Main definitions

* `Nynn.Text`, `Nynn.cstr`: the contents of a buffer, and the C string in it.
* `Nynn.chop`, `Nynn.ltrim`, `Nynn.rtrim`: parts of a text.
* `Nynn.atoi`: the number that a text begins with.
-/

namespace Nynn

/-- The contents of a buffer, where a character stands for a byte. -/
abbrev Text := List Char

/-- The C string in a buffer ends at the first null character. -/
def cstr (buffer : Text) : Text := buffer.takeWhile (· != '\x00')

/-- `isspace` in the locale `C`. -/
def isspace (ch : Char) : Bool := ch = ' ' || '\t' ≤ ch && ch ≤ '\r'

def chop (ch : Char) (src : Text) : Text := src.takeWhile (· != ch)

def ltrim (chars src : Text) : Text := src.dropWhile (chars.contains ·)

def rtrim (chars src : Text) : Text := src.rdropWhile (chars.contains ·)

/-- The value of decimal digits. -/
def decimal (digits : Text) : ℕ := digits.foldl (fun n ch => 10 * n + (ch.toNat - '0'.toNat)) 0

/-- `atoi`, before the conversion to an integer of fewer bits: `strtol` ends at the bounds of
`long`. -/
def atoi (src : Text) : ℤ :=
  let nat (s : Text) : ℕ := decimal (s.takeWhile Char.isDigit)
  match src.dropWhile isspace with
  | '-' :: s => max (-2 ^ 63) (-nat s)
  | '+' :: s => min (2 ^ 63 - 1) (nat s)
  | s => min (2 ^ 63 - 1) (nat s)

theorem isspace_of_isDigit {ch : Char} (h : ch.isDigit = true) : isspace ch = false := by
  by_contra hspace
  rw [Bool.not_eq_false, isspace] at hspace
  simp only [Char.isDigit, Char.le_def, Bool.and_eq_true, Bool.or_eq_true, decide_eq_true_eq,
    UInt32.le_iff_toNat_le] at h hspace
  rcases hspace with rfl | hspace
  · exact absurd h.1 (by decide)
  · have hle := h.1.trans hspace.2
    exact absurd hle (by decide)

end Nynn
