import Nynn.Storage.FreePool

/-!
# The free list, whatever files exist

The overflow directory of a subgraph may hold files that are no group of the subgraph, and the
operating system may refuse a new file. The free list is a stack all the same. A require on the
empty stack either leaves the store alone, or leaves a file behind, or makes a group, or moves
`supBlkno` behind `BLOCKNO_MAX` and throws.

Source: `nynn_mm_subgraph_storage.h`.

## Main definitions

* `Nynn.FreeBlocks`: the free list of a storage, with any files left behind.
* `Nynn.GroupOutcome`: what a require on the empty stack does.

## Main results

* `Nynn.FreeBlocks.release`, `Nynn.FreeBlocks.require`: a release, and a require that succeeds.
* `Nynn.FreeBlocks.groupOutcome`: a require on the empty stack.
* `Nynn.FreeBlocks.require_error`: a require that fails and does not move `supBlkno`.
-/

namespace Nynn

open Program

variable {c : Config}

/-- The free list of a storage is `stack`, and its blocks are the numbers below `supBlkno`. -/
structure FreeBlocks (s : FlatStorage c) (stack : List UInt32) : Prop where
  free : FreeListOf s stack
  min_le : c.overflowBlknoMin ≤ s.superblk.supBlkno
  le_max : s.superblk.supBlkno = c.overflowBlknoMin ∨ s.superblk.supBlkno ≤ c.blknoMax

namespace FreeBlocks

variable {s s' : FlatStorage c} {stack : List UInt32}

theorem isBlock_iff (h : FreeBlocks s stack) (b : UInt32) :
    s.isBlock b = true ↔ b < s.superblk.supBlkno := by
  have hmin := h.min_le
  have hmax := h.le_max
  simp only [Storage.isBlock, isFlat, isOverflow, Bool.or_eq_true, Bool.and_eq_true,
    decide_eq_true_iff, UInt32.lt_iff_toNat_lt, UInt32.le_iff_toNat_le,
    ← UInt32.toNat_inj] at hmin hmax ⊢
  omega

theorem congr (h : FreeBlocks s stack) (hsuper : s'.superblk = s.superblk)
    (hblocks : s'.blocks = s.blocks) : FreeBlocks s' stack :=
  ⟨h.free.congr (by rw [hsuper]) (by rw [hsuper]) (by rw [hsuper]) fun b _ => congrFun hblocks b,
    hsuper ▸ h.min_le, hsuper ▸ h.le_max⟩

theorem of_format {minVtxno : UInt32} (h : Nynn.format .allMapped minVtxno = (.ok (), s)) :
    FreeBlocks s (blknoRange 0 c.overflowBlknoMin.toNat) := by
  have hs := refines_format h
  exact ⟨hs.free, hs.groups.min_le, hs.groups.le_max⟩

/-- A release pushes its block and writes to free blocks only. -/
theorem release {blkno : UInt32} (h : FreeBlocks s stack) (hblk : s.isBlock blkno = true)
    (hnot : blkno ∉ stack) :
    ∃ s', (Nynn.release blkno).run s = (.ok (), s') ∧ FreeBlocks s' (blkno :: stack) ∧
      SameOutside s s' (blkno :: stack) := by
  obtain ⟨s', hrun, hfree, hsame⟩ := releaseRaw_spec h.free hblk hnot
  refine ⟨s', hrun, ⟨hfree, ?_, ?_⟩, hsame⟩
  · rw [hsame.supBlkno]
    exact h.min_le
  · rw [hsame.supBlkno]
    exact h.le_max

/-- A require on the empty stack takes the first block of a new group. -/
theorem require_of_nil {disk : CreateOutcome} (h : FreeBlocks s [])
    (hgrow : CanGrow s disk) :
    ∃ s', (Nynn.require disk).run s = (.ok s.superblk.supBlkno, s') ∧
      FreeBlocks s' (blknoRange (s.superblk.supBlkno + 1) (c.groupSize - 1)) ∧
      (∀ b, s'.isBlock b = true ↔
        s.isBlock b = true ∨ b ∈ blknoRange s.superblk.supBlkno c.groupSize) ∧
      ∀ b, b ∉ blknoRange s.superblk.supBlkno c.groupSize → s'.blocks b = s.blocks b := by
  obtain ⟨s', hrun, hfree, hsup, -, -, hblocks⟩ := require_grow h.free hgrow
  have hnat := toNat_add_overflowBlknoMask_add_one hgrow.le_blknoMax
  refine ⟨s', hrun, ⟨hfree, ?_, Or.inr ?_⟩, fun b => ?_, hblocks⟩
  · have hmin := UInt32.le_iff_toNat_le.mp h.min_le
    rw [UInt32.le_iff_toNat_le, hsup, hnat]
    omega
  · rw [UInt32.le_iff_toNat_le, hsup, hnat]
    exact hgrow.le_blknoMax
  · have hsup' : s'.superblk.supBlkno = s.newGroup.superblk.supBlkno := hsup
    rw [← isBlock_newGroup hgrow, Storage.isBlock, Storage.isBlock, hsup']

/-- A require that succeeds takes a block that no user has, and writes to free blocks only. -/
theorem require {disk : CreateOutcome} {blkno : UInt32} (h : FreeBlocks s stack)
    (hrun : (Nynn.require disk).run s = (.ok blkno, s')) :
    ∃ stack', FreeBlocks s' stack' ∧ s'.isBlock blkno = true ∧ blkno ∉ stack' ∧
      ∀ b, s.isBlock b = true → b ∉ stack →
        s'.isBlock b = true ∧ b ∉ blkno :: stack' ∧ s'.blocks b = s.blocks b := by
  cases stack with
  | nil =>
    have hgrow := canGrow_of_require h.free h.min_le hrun
    obtain ⟨s₁, hrun₁, hs₁, hisBlock, hblocks⟩ := h.require_of_nil hgrow
    rw [hrun, Prod.mk.injEq, Except.ok.injEq] at hrun₁
    obtain ⟨rfl, rfl⟩ := hrun₁
    have hrange : blknoRange s.superblk.supBlkno c.groupSize =
        s.superblk.supBlkno :: blknoRange (s.superblk.supBlkno + 1) (c.groupSize - 1) := by
      rw [← blknoRange_cons, Nat.sub_add_cancel c.groupSize_pos]
    have hnodup := nodup_blknoRange s.superblk.supBlkno (Nat.le_of_lt c.groupSize_lt)
    rw [hrange] at hnodup hisBlock hblocks
    refine ⟨_, hs₁, (hisBlock _).mpr (Or.inr List.mem_cons_self), (List.nodup_cons.mp hnodup).1,
      fun b hb _ => ?_⟩
    have hnot : b ∉ s.superblk.supBlkno ::
        blknoRange (s.superblk.supBlkno + 1) (c.groupSize - 1) := by
      intro hmem
      have hle := (toNat_mem_newGroup hgrow (hrange ▸ hmem)).1
      have hlt := UInt32.lt_iff_toNat_lt.mp ((h.isBlock_iff b).mp hb)
      omega
    exact ⟨(hisBlock b).mpr (Or.inl hb), hnot, hblocks b hnot⟩
  | cons top stack =>
    obtain ⟨s₁, hrun₁, hfree, hsame⟩ := require_cons disk h.free
    rw [hrun, Prod.mk.injEq, Except.ok.injEq] at hrun₁
    obtain ⟨rfl, rfl⟩ := hrun₁
    have hnodup := List.nodup_cons.mp h.free.nodup
    refine ⟨stack, ⟨hfree, ?_, ?_⟩, ?_, hnodup.1, fun b hb hnot => ?_⟩
    · rw [hsame.supBlkno]
      exact h.min_le
    · rw [hsame.supBlkno]
      exact h.le_max
    · rw [hsame.isBlock_eq]
      exact h.free.isBlock _ List.mem_cons_self
    · rw [hsame.isBlock_eq]
      exact ⟨hb, hnot, hsame.blocks b hnot⟩

end FreeBlocks

/-! ### A require on the empty stack -/

/-- What a require on the empty stack does. It is refused, with the store as it was; it leaves a
file behind; it makes a group; or the group reaches behind `BLOCKNO_MAX`. In the last case the loop
over the blocks of the group meets a number of no block: at once, or, where the numbers of the
group go past `2 ^ 32`, after it has released the blocks that start at zero again. -/
inductive GroupOutcome (s : FlatStorage c) :
    CreateOutcome → Except Fault UInt32 → FlatStorage c → Prop
  | refused {disk : CreateOutcome} {what : String}
      (hcause : isOverflow c s.superblk.supBlkno = false ∨
        s.files (overflowGroup c s.superblk.supBlkno) = true ∨ ∃ errno, disk = .openFails errno) :
      GroupOutcome s disk (.error (.exception what)) s
  | leftFile {disk : CreateOutcome} {what : String} {s' : FlatStorage c}
      (hover : isOverflow c s.superblk.supBlkno = true)
      (hfile : s.files (overflowGroup c s.superblk.supBlkno) = false)
      (hok : disk ≠ .ok) (hopen : ∀ errno, disk ≠ .openFails errno)
      (hsuper : s'.superblk = s.superblk) (hblocks : s'.blocks = s.blocks)
      (hfiles : s'.files = Function.update s.files (overflowGroup c s.superblk.supBlkno) true) :
      GroupOutcome s disk (.error (.exception what)) s'
  | made {s' : FlatStorage c} (hgrow : CanGrow s .ok)
      (hsup : s'.superblk.supBlkno.toNat = s.superblk.supBlkno.toNat + c.groupSize) :
      GroupOutcome s .ok (.ok s.superblk.supBlkno) s'
  | beyond {what : String} {s' : FlatStorage c}
      (hover : isOverflow c s.superblk.supBlkno = true)
      (hfile : s.files (overflowGroup c s.superblk.supBlkno) = false)
      (hmax : c.blknoMax.toNat < s.superblk.supBlkno.toNat + c.groupSize)
      (hsup : s'.superblk.supBlkno = s.superblk.supBlkno + c.overflowBlknoMask + 1)
      (hfit : s.superblk.supBlkno.toNat + c.groupSize ≤ 2 ^ 32 → s' = s.newGroup)
      (hwrap : 2 ^ 32 < s.superblk.supBlkno.toNat + c.groupSize →
        FreeListOf s' (blknoRange 0 (s.superblk.supBlkno.toNat + c.groupSize - 2 ^ 32))) :
      GroupOutcome s .ok (.error (.exception what)) s'

/-- A new overflow file is made and mapped, or is refused, or is left behind. -/
private theorem createMmapFile_cases (disk : CreateOutcome) (path : UInt32) (s : FlatStorage c) :
    (disk = .ok ∧ s.files path = false) ∨
    ((s.files path = true ∨ ∃ errno, disk = .openFails errno) ∧
      ∃ what, (createMmapFile disk path).run s = (.error (.exception what), s)) ∨
    (s.files path = false ∧ disk ≠ .ok ∧ (∀ errno, disk ≠ .openFails errno) ∧
      ∃ what s', (createMmapFile disk path).run s = (.error (.exception what), s') ∧
        s'.superblk = s.superblk ∧ s'.blocks = s.blocks ∧
        s'.files = Function.update s.files path true) := by
  rw [createMmapFile.eq_def, Prog.run_get_bind]
  by_cases hfile : s.files path = true
  · rw [if_pos hfile]
    exact Or.inr (Or.inl ⟨Or.inl hfile, _, rfl⟩)
  · rw [if_neg hfile]
    rw [Bool.not_eq_true] at hfile
    cases disk with
    | ok => exact Or.inl ⟨rfl, hfile⟩
    | openFails errno => exact Or.inr (Or.inl ⟨Or.inr ⟨errno, rfl⟩, _, rfl⟩)
    | writeFails errno =>
      exact Or.inr (Or.inr ⟨hfile, by simp, by simp, _, _, rfl, rfl, rfl, rfl⟩)
    | laterCallFails errno =>
      exact Or.inr (Or.inr ⟨hfile, by simp, by simp, _, _, rfl, rfl, rfl, rfl⟩)

/-- The loop over a group first releases the blocks from the `k`-th on. -/
private theorem releaseGroup_add (first : UInt32) (k j : ℕ) :
    (releaseGroup first (k + j) : StorageM c AllMapped Unit) =
      releaseGroup (first + UInt32.ofNat k) j >>= fun _ => releaseGroup first k := by
  induction j with
  | zero => rfl
  | succ j ih =>
    rw [← Nat.add_assoc, releaseGroup, releaseGroup, ih, Prog.bind_assoc, UInt32.ofNat_add,
      UInt32.add_assoc]

/-- The loop fails at its first block when that is no block. -/
private theorem releaseGroup_error {s : FlatStorage c} (first : UInt32) (n : ℕ)
    (hnot : s.isBlock (first + UInt32.ofNat n) = false) :
    (releaseGroup first (n + 1)).run s =
      (.error (.exception "The released block is NULL!"), s) := by
  have hraw : (releaseRaw (first + UInt32.ofNat n)).run s =
      (.error (.exception "The released block is NULL!"), s) := by
    rw [releaseRaw, Prog.run_get_bind, Prog.run_bind_of_ok (getBlock_of_not_isBlock hnot)]
    rfl
  rw [releaseGroup, Prog.run_bind_of_error hraw]

namespace FreeBlocks

variable {s s' : FlatStorage c} {stack : List UInt32}

/-- The numbers of a group that reaches behind `BLOCKNO_MAX`. -/
private theorem groupOutcome_beyond {r : Except Fault UInt32} (h : FreeBlocks s [])
    (hover : isOverflow c s.superblk.supBlkno = true)
    (hfile : s.files (overflowGroup c s.superblk.supBlkno) = false)
    (hmax : c.blknoMax.toNat < s.superblk.supBlkno.toNat + c.groupSize)
    (hrun : (Nynn.require .ok).run s = (r, s')) : GroupOutcome s .ok r s' := by
  obtain ⟨first, hfirst⟩ : ∃ first, first = s.superblk.supBlkno := ⟨_, rfl⟩
  have hsup : s.newGroup.superblk.supBlkno = first + c.overflowBlknoMask + 1 := by
    rw [hfirst]
    rfl
  have hpos := c.groupSize_pos
  have hsize := c.groupSize_lt
  have hlt := first.toNat_lt
  have hnew : FreeListOf s.newGroup [] :=
    ⟨h.free.chain, List.nodup_nil, by simp, h.free.count⟩
  have hnat : s.newGroup.superblk.supBlkno.toNat = (first.toNat + c.groupSize) % 2 ^ 32 := by
    have hone : (1 : UInt32).toNat = 1 := rfl
    rw [hsup, UInt32.toNat_add, UInt32.toNat_add, c.toNat_overflowBlknoMask, hone]
    omega
  have hover' := hover
  rw [isOverflow, Bool.and_eq_true, decide_eq_true_iff, decide_eq_true_iff,
    UInt32.lt_iff_toNat_lt, UInt32.le_iff_toNat_le, ← hfirst] at hover'
  rw [← hfirst] at hmax
  rw [require_nil _ h.free, requireUnallocated_run hover hfile, ← hfirst] at hrun
  by_cases hfit : first.toNat + c.groupSize ≤ 2 ^ 32
  · -- The greatest number of the group is behind `BLOCKNO_MAX`.
    have hlast : (first + UInt32.ofNat (c.groupSize - 1)).toNat =
        first.toNat + (c.groupSize - 1) := by
      have hlt' : c.groupSize - 1 < 2 ^ 32 := by omega
      rw [UInt32.toNat_add, UInt32.toNat_ofNat_of_lt' hlt', Nat.mod_eq_of_lt]
      omega
    have hnot : s.newGroup.isBlock (first + UInt32.ofNat (c.groupSize - 1)) = false := by
      simp only [Storage.isBlock, isFlat, isOverflow, Bool.or_eq_false_iff,
        Bool.and_eq_false_iff, decide_eq_false_iff_not, UInt32.lt_iff_toNat_lt,
        UInt32.le_iff_toNat_le, hlast]
      omega
    have hloop := releaseGroup_error first (c.groupSize - 1) hnot
    rw [Nat.sub_add_cancel hpos] at hloop
    rw [Prog.run_bind_of_error hloop, Prod.mk.injEq] at hrun
    obtain ⟨rfl, rfl⟩ := hrun
    refine .beyond hover hfile (hfirst ▸ hmax) rfl (fun _ => rfl) fun hwrap => ?_
    rw [← hfirst] at hwrap
    omega
  · -- The numbers of the group start at zero again.
    obtain ⟨k, hk⟩ : ∃ k, first.toNat + (k + 1) = 2 ^ 32 := ⟨2 ^ 32 - first.toNat - 1, by omega⟩
    obtain ⟨j, hj⟩ : ∃ j, c.groupSize = k + 1 + j := ⟨c.groupSize - (k + 1), by omega⟩
    have hkfirst : first + UInt32.ofNat (k + 1) = 0 := by
      apply UInt32.toNat_inj.mp
      rw [UInt32.toNat_add, UInt32.toNat_ofNat', Nat.add_mod_mod, hk]
      rfl
    have hlast : first + UInt32.ofNat k = invalidBlkno := by
      have hlt' : k < 2 ^ 32 := by omega
      apply UInt32.toNat_inj.mp
      rw [UInt32.toNat_add, UInt32.toNat_ofNat_of_lt' hlt', Nat.mod_eq_of_lt (by omega)]
      change first.toNat + k = 2 ^ 32 - 1
      omega
    have hblk : ∀ b ∈ blknoRange 0 j, s.newGroup.isBlock b = true := by
      intro b hb
      obtain ⟨i, hi, rfl⟩ := mem_blknoRange.mp hb
      have hi' : (0 + UInt32.ofNat i).toNat = i := by
        rw [UInt32.zero_add, UInt32.toNat_ofNat_of_lt' (show i < 2 ^ 32 by omega)]
      simp only [Storage.isBlock, isFlat, isOverflow, Bool.or_eq_true, Bool.and_eq_true,
        decide_eq_true_iff, UInt32.lt_iff_toNat_lt, UInt32.le_iff_toNat_le, hi', hnat]
      omega
    obtain ⟨s₁, hrun₁, hfree₁, hsame₁⟩ :=
      releaseGroup_spec 0 (show j ≤ 2 ^ 32 by omega) hnew hblk (by simp)
    have hloop : (releaseGroup first (k + 1)).run s₁ =
        (.error (.exception "The released block is NULL!"), s₁) :=
      releaseGroup_error first k (by rw [hlast, isBlock_invalidBlkno])
    rw [hj, releaseGroup_add, hkfirst, Prog.bind_assoc, Prog.run_bind_of_ok hrun₁,
      Prog.run_bind_of_error hloop, Prod.mk.injEq] at hrun
    obtain ⟨rfl, rfl⟩ := hrun
    rw [List.append_nil] at hfree₁
    have hlen : first.toNat + c.groupSize - 2 ^ 32 = j := by omega
    refine .beyond hover hfile (hfirst ▸ hmax) (hsame₁.supBlkno.trans rfl)
      (fun hfit' => absurd (hfirst ▸ hfit') hfit) fun _ => ?_
    rw [← hfirst, hlen]
    exact hfree₁

/-- **A require on the empty stack.** -/
theorem groupOutcome {disk : CreateOutcome} {r : Except Fault UInt32} (h : FreeBlocks s [])
    (hrun : (Nynn.require disk).run s = (r, s')) : GroupOutcome s disk r s' := by
  by_cases hover : isOverflow c s.superblk.supBlkno = true
  · have hpath : (makeOverflowPath s.superblk.supBlkno : StorageM c AllMapped UInt32).run s =
        (.ok (overflowGroup c s.superblk.supBlkno), s) := by
      rw [makeOverflowPath, if_pos hover]
      rfl
    rcases createMmapFile_cases disk (overflowGroup c s.superblk.supBlkno) s with
      ⟨rfl, hfile⟩ | ⟨hcause, what, hcreate⟩ |
      ⟨hfile, hok, hopen, what, s₁, hcreate, hsuper, hblocks, hfiles⟩
    · by_cases hmax : c.blknoMax.toNat < s.superblk.supBlkno.toNat + c.groupSize
      · exact h.groupOutcome_beyond hover hfile hmax hrun
      · have hgrow : CanGrow s .ok := ⟨h.min_le, not_lt.mp hmax, hfile, rfl⟩
        obtain ⟨s₁, hrun₁, -, hsup, -⟩ := require_grow h.free hgrow
        rw [hrun, Prod.mk.injEq] at hrun₁
        obtain ⟨rfl, rfl⟩ := hrun₁
        refine .made hgrow ?_
        rw [hsup, toNat_add_overflowBlknoMask_add_one hgrow.le_blknoMax]
    · rw [require_nil _ h.free, requireUnallocated, Prog.run_get_bind, Prog.run_bind_of_ok hpath,
        Prog.run_bind_of_error hcreate, Prod.mk.injEq] at hrun
      obtain ⟨rfl, rfl⟩ := hrun
      exact .refused (Or.inr hcause)
    · rw [require_nil _ h.free, requireUnallocated, Prog.run_get_bind, Prog.run_bind_of_ok hpath,
        Prog.run_bind_of_error hcreate, Prod.mk.injEq] at hrun
      obtain ⟨rfl, rfl⟩ := hrun
      exact .leftFile hover hfile hok hopen hsuper hblocks hfiles
  · have hpath : (makeOverflowPath s.superblk.supBlkno : StorageM c AllMapped UInt32).run s =
        (.error (.exception "blkno is invalid or not overflow"), s) := by
      rw [makeOverflowPath, if_neg hover]
      rfl
    rw [require_nil _ h.free, requireUnallocated, Prog.run_get_bind, Prog.run_bind_of_error hpath,
      Prod.mk.injEq] at hrun
    obtain ⟨rfl, rfl⟩ := hrun
    exact .refused (Or.inl (by simpa using hover))

/-- A require that fails finds no free block. -/
theorem eq_nil_of_require_error {disk : CreateOutcome} {e : Fault} (h : FreeBlocks s stack)
    (hrun : (Nynn.require disk).run s = (.error e, s')) : stack = [] := by
  cases stack with
  | nil => rfl
  | cons top stack =>
    obtain ⟨s₁, hrun₁, -, -⟩ := require_cons disk h.free
    rw [hrun] at hrun₁
    cases hrun₁

/-- A require that fails leaves the blocks and the free list as they are. -/
theorem require_error {disk : CreateOutcome} {e : Fault} (h : FreeBlocks s stack)
    (hrun : (Nynn.require disk).run s = (.error e, s'))
    (hle : s.superblk.supBlkno ≤ s'.superblk.supBlkno)
    (hmax : s'.superblk.supBlkno ≤ c.blknoMax) :
    s'.superblk = s.superblk ∧ s'.blocks = s.blocks := by
  obtain rfl := h.eq_nil_of_require_error hrun
  cases h.groupOutcome hrun with
  | refused => exact ⟨rfl, rfl⟩
  | leftFile _ _ _ _ hsuper hblocks => exact ⟨hsuper, hblocks⟩
  | beyond _ _ hbeyond hsup =>
    -- `supBlkno` moves before the failure, to a number behind `BLOCKNO_MAX` or to a smaller one
    exfalso
    have hone : (1 : UInt32).toNat = 1 := rfl
    have hpos := c.groupSize_pos
    have hsize := c.groupSize_lt
    rw [hsup, UInt32.le_iff_toNat_le, UInt32.toNat_add, UInt32.toNat_add,
      c.toNat_overflowBlknoMask, hone] at hle hmax
    omega

end FreeBlocks

end Nynn
