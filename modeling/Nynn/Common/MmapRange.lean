import Mathlib.Algebra.Group.Nat.Defs
import Mathlib.Data.Nat.Notation
import Mathlib.Order.Basic

/-!
# Ranges of a mapped file

`lock`, `unlock` and `sync` of a part of a mapped file round the address down to a page and test the
range. The test compares the offset of the address with `m_length-m_length`, where the length of the
range hides the member of this name, and this is zero. It therefore passes for the first page of the
mapping with any length, and for no other page.

Source: `MmapFile` in `nynn_mm_common.h`.

## Main definitions

* `Nynn.MmapFile.checkPagedAlignment`: the test.
* `Nynn.MmapFile.lock`, `Nynn.MmapFile.unlock`, `Nynn.MmapFile.sync`: the ranges of the system
  calls.
* `Nynn.MmapFile.Inside`: a range lies in the mapping.

## Main results

* `Nynn.checkPagedAlignment_exact_iff`: the ranges on which the test is right.
-/

namespace Nynn

/-- A mapped file, and the page size of the system. -/
structure MmapFile where
  m_base : UInt64
  m_length : UInt64
  pagesize : UInt64
  pagesize_pos : 0 < pagesize

namespace MmapFile

/-- What the test leaves in its arguments, and its value. -/
structure Checked where
  addr : UInt64
  m_length : UInt64
  passed : Bool
  deriving DecidableEq, Repr

variable (f : MmapFile) (addr m_length : UInt64)

/-- The parameter `m_length` hides the member. A difference of pointers has a sign. -/
def checkPagedAlignment : Checked :=
  let m_length := m_length + addr % f.pagesize
  let taddr := addr - addr % f.pagesize
  ⟨taddr, m_length,
    0 ≤ (taddr - f.m_base).toInt64 && taddr - f.m_base ≤ m_length - m_length⟩

/-- The arguments of a system call on a range; `none` where `ENOMEM` is thrown before it. -/
def onRange : Option (UInt64 × UInt64) :=
  let c := f.checkPagedAlignment addr m_length
  if c.passed then some (c.addr, c.m_length) else none

/-- The arguments of `mlock`. -/
def lock : Option (UInt64 × UInt64) := f.onRange addr m_length

/-- The arguments of `munlock`. -/
def unlock : Option (UInt64 × UInt64) := f.onRange addr m_length

/-- The arguments of `msync`. -/
def sync (flags : Int32) : Option (UInt64 × UInt64 × Int32) :=
  (f.onRange addr m_length).map fun r => (r.1, r.2, flags)

/-- The range from the page where it begins lies in the mapping. -/
def Inside : Prop :=
  f.m_base.toNat ≤ (f.checkPagedAlignment addr m_length).addr.toNat ∧
    (f.checkPagedAlignment addr m_length).addr.toNat +
      (f.checkPagedAlignment addr m_length).m_length.toNat ≤ f.m_base.toNat + f.m_length.toNat

/-- The range is enlarged to the page where it begins, the test passes if and only if it lies in the
mapping then, and so the system calls are made. -/
structure Exact : Prop where
  rounded : (f.checkPagedAlignment addr m_length).addr.toNat =
    addr.toNat / f.pagesize.toNat * f.pagesize.toNat
  sum_eq : (f.checkPagedAlignment addr m_length).addr.toNat +
    (f.checkPagedAlignment addr m_length).m_length.toNat = addr.toNat + m_length.toNat
  passed : (f.checkPagedAlignment addr m_length).passed = true ↔ f.Inside addr m_length
  locked : f.lock addr m_length ≠ none ↔ f.Inside addr m_length
  unlocked : f.unlock addr m_length ≠ none ↔ f.Inside addr m_length
  synced : ∀ flags, f.sync addr m_length flags ≠ none ↔ f.Inside addr m_length

/-- The range begins in the first page of the mapping and ends in the mapping, or it begins in
another page and does not lie in the mapping. -/
def FirstPage : Prop :=
  if addr.toNat / f.pagesize.toNat * f.pagesize.toNat = f.m_base.toNat then
    addr.toNat + m_length.toNat ≤ f.m_base.toNat + f.m_length.toNat
  else addr.toNat / f.pagesize.toNat * f.pagesize.toNat < f.m_base.toNat ∨
    f.m_base.toNat + f.m_length.toNat < addr.toNat + m_length.toNat

variable {f addr m_length}

/-! ### The test -/

theorem addr_checkPagedAlignment : (f.checkPagedAlignment addr m_length).addr.toNat =
    addr.toNat / f.pagesize.toNat * f.pagesize.toNat := by
  have haddr : (f.checkPagedAlignment addr m_length).addr = addr - addr % f.pagesize := rfl
  have hmod : addr % f.pagesize ≤ addr := by
    rw [UInt64.le_iff_toNat_le, UInt64.toNat_mod]
    exact Nat.mod_le _ _
  have hdiv := Nat.div_add_mod' addr.toNat f.pagesize.toNat
  rw [haddr, UInt64.toNat_sub_of_le _ _ hmod, UInt64.toNat_mod]
  omega

/-- The end of the range stays where it is. -/
theorem sum_checkPagedAlignment (h : addr.toNat + m_length.toNat < 2 ^ 64) :
    (f.checkPagedAlignment addr m_length).addr.toNat +
      (f.checkPagedAlignment addr m_length).m_length.toNat = addr.toNat + m_length.toNat := by
  have hlength : (f.checkPagedAlignment addr m_length).m_length =
      m_length + addr % f.pagesize := rfl
  have hmod := Nat.mod_le addr.toNat f.pagesize.toNat
  have hdiv := Nat.div_add_mod' addr.toNat f.pagesize.toNat
  rw [addr_checkPagedAlignment, hlength, UInt64.toNat_add, UInt64.toNat_mod,
    Nat.mod_eq_of_lt (by omega)]
  omega

/-- The test passes for the first page of the mapping. -/
theorem passed_iff : (f.checkPagedAlignment addr m_length).passed = true ↔
    addr.toNat / f.pagesize.toNat * f.pagesize.toNat = f.m_base.toNat := by
  have haddr : (f.checkPagedAlignment addr m_length).addr.toNat = _ := addr_checkPagedAlignment
  have hpassed : (f.checkPagedAlignment addr m_length).passed =
      (decide (0 ≤ ((f.checkPagedAlignment addr m_length).addr - f.m_base).toInt64) &&
        decide ((f.checkPagedAlignment addr m_length).addr - f.m_base ≤
          m_length + addr % f.pagesize - (m_length + addr % f.pagesize))) := rfl
  rw [← haddr, UInt64.toNat_inj, hpassed, UInt64.sub_self, Bool.and_eq_true, decide_eq_true_eq, decide_eq_true_eq]
  constructor
  · rintro ⟨-, hle⟩
    have hzero : (f.checkPagedAlignment addr m_length).addr - f.m_base = 0 :=
      UInt64.le_zero_iff.mp hle
    exact (UInt64.sub_eq_iff_eq_add.mp hzero).trans (UInt64.zero_add _)
  · intro h
    rw [h, UInt64.sub_self]
    exact ⟨by decide, UInt64.le_refl 0⟩

theorem inside_iff (h : addr.toNat + m_length.toNat < 2 ^ 64) : f.Inside addr m_length ↔
    f.m_base.toNat ≤ addr.toNat / f.pagesize.toNat * f.pagesize.toNat ∧
      addr.toNat + m_length.toNat ≤ f.m_base.toNat + f.m_length.toNat := by
  rw [Inside, addr_checkPagedAlignment, ← sum_checkPagedAlignment h, addr_checkPagedAlignment]

theorem onRange_ne_none_iff : f.onRange addr m_length ≠ none ↔
    (f.checkPagedAlignment addr m_length).passed = true := by
  rw [onRange]
  simp

/-- The whole file passes. -/
theorem passed_whole (h : f.m_base.toNat % f.pagesize.toNat = 0) :
    (f.checkPagedAlignment f.m_base f.m_length).passed = true := by
  rw [passed_iff]
  exact Nat.div_mul_cancel (Nat.dvd_of_mod_eq_zero h)

end MmapFile

/-- **Ranges of a mapped file.** The test and the calls are right if and only if the range begins in
the first page of the mapping and ends in it, or does not lie in it at all. -/
theorem checkPagedAlignment_exact_iff {f : MmapFile} {addr m_length : UInt64}
    (h : addr.toNat + m_length.toNat < 2 ^ 64) :
    f.Exact addr m_length ↔ f.FirstPage addr m_length := by
  have hfirst : ((f.checkPagedAlignment addr m_length).passed = true ↔
      f.Inside addr m_length) ↔ f.FirstPage addr m_length := by
    rw [MmapFile.passed_iff, MmapFile.inside_iff h, MmapFile.FirstPage]
    split <;> omega
  rw [← hfirst]
  refine ⟨fun hexact => hexact.passed, fun hpassed => ?_⟩
  have hcall : f.onRange addr m_length ≠ none ↔ f.Inside addr m_length :=
    MmapFile.onRange_ne_none_iff.trans hpassed
  refine ⟨MmapFile.addr_checkPagedAlignment, MmapFile.sum_checkPagedAlignment h, hpassed, hcall,
    hcall, fun flags => ?_⟩
  rw [MmapFile.sync, Ne, Option.map_eq_none_iff]
  exact hcall

/-- One page of a mapping of two pages. -/
theorem checkPagedAlignment_exact_iff_small :
    (⟨65536, 8192, 4096, by decide⟩ : MmapFile).Exact 65546 100 := by
  refine (checkPagedAlignment_exact_iff (by decide)).mpr ?_
  unfold MmapFile.FirstPage
  decide

/-- The second page of a mapping of two pages is refused. -/
theorem checkPagedAlignment_exact_false_of_second :
    (⟨65536, 8192, 4096, by decide⟩ : MmapFile).checkPagedAlignment 69632 4096 =
        ⟨69632, 4096, false⟩ ∧
      ¬(⟨65536, 8192, 4096, by decide⟩ : MmapFile).Exact 69632 4096 := by
  have hcheck : (⟨65536, 8192, 4096, by decide⟩ : MmapFile).checkPagedAlignment 69632 4096 =
      ⟨69632, 4096, false⟩ := by decide +kernel
  refine ⟨hcheck, fun hexact => ?_⟩
  have hpassed := hexact.passed
  rw [MmapFile.Inside, hcheck] at hpassed
  exact absurd (hpassed.mpr (by decide)) Bool.false_ne_true

end Nynn
