import Mathlib.Data.Nat.Digits.Lemmas

/-!
# Numbers stored as little-endian bytes

Numbers are laid out in fixed-size byte blocks at byte offsets, the least significant byte first,
as on the machines the modelled programs run on. A field that is written is read back, modulo the
field's width, and a field elsewhere in the block is untouched.

## Main definitions

* `LittleEndian.leValue`, `LittleEndian.leBytes`: a list of bytes as a number, and back.
* `LittleEndian.Bytes`: a block of `n` bytes.
* `LittleEndian.Bytes.getLE`, `LittleEndian.Bytes.putLE`: a field of a block.

## Main results

* `LittleEndian.leValue_leBytes`, `LittleEndian.leBytes_leValue`: the two are inverse.
* `LittleEndian.Bytes.getLE_putLE`, `LittleEndian.Bytes.getLE_putLE_of_disjoint`.
-/

namespace LittleEndian

/-! ### Lists of bytes -/

/-- The number a list of bytes stands for, least significant byte first. -/
def leValue : List UInt8 → ℕ
  | [] => 0
  | b :: bs => b.toNat + 256 * leValue bs

/-- The `w` low bytes of a number, least significant byte first. -/
def leBytes : ℕ → ℕ → List UInt8
  | 0, _ => []
  | w + 1, x => UInt8.ofNat x :: leBytes w (x / 256)

@[simp] theorem length_leBytes (w x : ℕ) : (leBytes w x).length = w := by
  induction w generalizing x with
  | zero => rfl
  | succ w ih => simp [leBytes, ih]

theorem leValue_lt (bs : List UInt8) : leValue bs < 256 ^ bs.length := by
  induction bs with
  | nil => simp [leValue]
  | cons b bs ih =>
    have hb : b.toNat < 256 := b.toNat_lt
    rw [leValue, List.length_cons, pow_succ]
    omega

/-- Writing a number in `w` bytes and reading it back keeps it modulo `256 ^ w`. -/
theorem leValue_leBytes (w x : ℕ) : leValue (leBytes w x) = x % 256 ^ w := by
  induction w generalizing x with
  | zero => simp [leBytes, leValue, Nat.mod_one]
  | succ w ih =>
    have hsplit : x % 256 ^ (w + 1) = x % 256 + 256 * (x / 256 % 256 ^ w) := by
      rw [pow_succ', Nat.mod_mul]
    simp [leBytes, leValue, ih, hsplit]

/-- A list of bytes is determined by its length and the number it stands for. -/
theorem leBytes_leValue (bs : List UInt8) : leBytes bs.length (leValue bs) = bs := by
  induction bs with
  | nil => rfl
  | cons b bs ih =>
    have hb : b.toNat < 256 := b.toNat_lt
    have hlow : UInt8.ofNat (b.toNat + 256 * leValue bs) = b := by
      apply UInt8.toNat_inj.mp
      rw [UInt8.toNat_ofNat']
      omega
    have hhigh : (b.toNat + 256 * leValue bs) / 256 = leValue bs := by omega
    rw [List.length_cons, leBytes, leValue, hlow, hhigh, ih]

/-! ### Blocks of bytes -/

/-- A block of `n` bytes. -/
abbrev Bytes (n : ℕ) := Fin n → UInt8

namespace Bytes

variable {n : ℕ}

/-- The byte at offset `i`, and zero past the end of the block. -/
def byteAt (b : Bytes n) (i : ℕ) : UInt8 := if h : i < n then b ⟨i, h⟩ else 0

/-- The number in the field of `w` bytes at offset `off`. -/
def getLE (b : Bytes n) (off : ℕ) : ℕ → ℕ
  | 0 => 0
  | w + 1 => (b.byteAt off).toNat + 256 * b.getLE (off + 1) w

/-- The block with the number `x` in the field of `w` bytes at offset `off`. -/
def putLE (b : Bytes n) (off w x : ℕ) : Bytes n := fun i =>
  if off ≤ i.val ∧ i.val < off + w then UInt8.ofNat (x / 256 ^ (i.val - off)) else b i

theorem putLE_apply_of_notMem (b : Bytes n) {off w : ℕ} (x : ℕ) {i : Fin n}
    (hi : i.val < off ∨ off + w ≤ i.val) : b.putLE off w x i = b i := by
  rw [putLE, if_neg (by omega)]

/-- A field only depends on its own bytes. -/
theorem getLE_congr {b b' : Bytes n} {off w : ℕ}
    (h : ∀ i : Fin n, off ≤ i.val → i.val < off + w → b i = b' i) :
    b.getLE off w = b'.getLE off w := by
  induction w generalizing off with
  | zero => rfl
  | succ w ih =>
    have hbyte : b.byteAt off = b'.byteAt off := by
      unfold byteAt
      split_ifs with hoff
      · exact h ⟨off, hoff⟩ le_rfl (by simp)
      · rfl
    rw [getLE, getLE, hbyte, ih fun i h₁ h₂ => h i (by omega) (by omega)]

theorem getLE_putLE_of_disjoint (b : Bytes n) {off w off' w' : ℕ} (x : ℕ)
    (h : off + w ≤ off' ∨ off' + w' ≤ off) : (b.putLE off w x).getLE off' w' = b.getLE off' w' :=
  getLE_congr fun _ _ _ => b.putLE_apply_of_notMem x (by omega)

private theorem getLE_putLE_aux (b : Bytes n) (off w x k v : ℕ) (hk : k + v = w)
    (hw : off + w ≤ n) :
    (b.putLE off w x).getLE (off + k) v = x / 256 ^ k % 256 ^ v := by
  induction v generalizing k with
  | zero => simp [getLE, Nat.mod_one]
  | succ v ih =>
    have hbyte : (b.putLE off w x).byteAt (off + k) = UInt8.ofNat (x / 256 ^ k) := by
      rw [byteAt, dif_pos (by omega), putLE, if_pos (by simp only; omega)]
      simp
    have hrest := ih (k + 1) (by omega)
    rw [← add_assoc] at hrest
    have hsplit : x / 256 ^ k % 256 ^ (v + 1) =
        x / 256 ^ k % 256 + 256 * (x / 256 ^ (k + 1) % 256 ^ v) := by
      rw [pow_succ' 256 v, Nat.mod_mul, Nat.div_div_eq_div_mul, ← pow_succ]
    rw [getLE, hbyte, hrest, hsplit, UInt8.toNat_ofNat']

/-- A field that fits into the block is read back modulo its width. -/
theorem getLE_putLE (b : Bytes n) {off w : ℕ} (x : ℕ) (hw : off + w ≤ n) :
    (b.putLE off w x).getLE off w = x % 256 ^ w := by
  simpa using getLE_putLE_aux b off w x 0 w (by omega) hw

/-- Writes to fields that do not overlap commute. -/
theorem putLE_comm (b : Bytes n) {off w off' w' : ℕ} (x y : ℕ)
    (h : off + w ≤ off' ∨ off' + w' ≤ off) :
    (b.putLE off w x).putLE off' w' y = (b.putLE off' w' y).putLE off w x := by
  funext i
  by_cases hi : off ≤ i.val ∧ i.val < off + w
  · rw [putLE_apply_of_notMem _ _ (by omega)]
    exact (if_pos hi).trans (if_pos hi).symm
  · rw [putLE_apply_of_notMem (b.putLE off' w' y) _ (by omega)]
    by_cases hi' : off' ≤ i.val ∧ i.val < off' + w'
    · exact (if_pos hi').trans (if_pos hi').symm
    · rw [putLE_apply_of_notMem _ _ (by omega), putLE_apply_of_notMem _ _ (by omega),
        putLE_apply_of_notMem _ _ (by omega)]

/-- A field determines its bytes. -/
theorem apply_eq_of_getLE_eq {b b' : Bytes n} {off w : ℕ} (h : b.getLE off w = b'.getLE off w)
    {i : Fin n} (hoff : off ≤ i.val) (hw : i.val < off + w) : b i = b' i := by
  induction w generalizing off with
  | zero => omega
  | succ w ih =>
    have hb : (b.byteAt off).toNat < 256 := (b.byteAt off).toNat_lt
    have hb' : (b'.byteAt off).toNat < 256 := (b'.byteAt off).toNat_lt
    rw [getLE, getLE] at h
    by_cases hi : i.val = off
    · have hbyte : b.byteAt off = b'.byteAt off := UInt8.toNat_inj.mp (by omega)
      rw [byteAt, byteAt, dif_pos (hi ▸ i.isLt), dif_pos (hi ▸ i.isLt)] at hbyte
      have hfin : (⟨off, hi ▸ i.isLt⟩ : Fin n) = i := Fin.ext hi.symm
      rwa [hfin] at hbyte
    · have hrest : b.getLE (off + 1) w = b'.getLE (off + 1) w := by omega
      exact ih hrest (by omega) (by omega)

theorem getLE_lt (b : Bytes n) (off w : ℕ) : b.getLE off w < 256 ^ w := by
  induction w generalizing off with
  | zero => simp [getLE]
  | succ w ih =>
    have hb : (b.byteAt off).toNat < 256 := (b.byteAt off).toNat_lt
    have := ih (off + 1)
    rw [getLE, pow_succ]
    omega

end Bytes

end LittleEndian
