import Nynn.Storage.FreeBlocks
import Nynn.Storage.MappedGroups

/-!
# Growing the block space

A require that finds no free block makes the next group of overflow blocks. When it throws, the
store should be what it was, and a later require should succeed once the cause is gone. That is so
while every group ends at `BLOCKNO_MAX` or before and a file that is created is also mapped. The
group that reaches behind `BLOCKNO_MAX` moves `supBlkno` before its loop throws, and a file whose
creation fails after `open` stays behind. A require that finds a free block counts it as taken
before it gets the head of the free list, so that it fails in the same way when the group of the
head is not mapped again.

Source: `nynn_mm_subgraph_storage.h`, `MmapFile` in `nynn_mm_common.h`.

## Main definitions

* `Nynn.CleanRequire`: what is expected of a require.
* `Nynn.GrowsCleanly`: when it is so.
* `Nynn.GrowthRun`: the runs of a storage and its users.

## Main results

* `Nynn.cleanRequire_iff`: a require fails cleanly under this condition, and only then.
-/

namespace Nynn

open Program

variable {c : Config}

/-! ### Clean failures -/

/-- `getBlock` returns a pointer to the block when the system refuses nothing. -/
def Storage.Reaches (s : Storage c (Overflow c)) (blkno : UInt32) : Prop :=
  ∃ p s', (getBlock blkno).run s.healed = (.ok (some p), s')

theorem Storage.Sound.reaches_iff {s : Storage c (Overflow c)} (h : s.Sound) (blkno : UInt32) :
    s.Reaches blkno ↔ s.isBlock blkno = true := by
  constructor
  · rintro ⟨p, s', hrun⟩
    by_contra hblk
    rw [Bool.not_eq_true] at hblk
    have hnull : (Nynn.getBlock blkno).run s.healed = (.ok none, s.healed) :=
      getBlock_of_not_isBlock hblk
    rw [hrun] at hnull
    cases hnull
  · intro hblk
    rcases getBlock_sim h blkno with ⟨hnot, -⟩ | ⟨-, p, s', hrun, -⟩
    · exact absurd (hblk.symm.trans hnot) Bool.true_eq_false.mp
    · exact ⟨p, s', hrun⟩

/-- The state after the file of the next group was removed, if it was there. -/
def Storage.removeNextFile {M : Type} (s : Storage c M) : Storage c M :=
  { s with
    files := Function.update s.files (overflowGroup c s.superblk.supBlkno) false
    emptyFiles := Function.update s.emptyFiles (overflowGroup c s.superblk.supBlkno) false }

/-- The cause of a failure is gone: a block that was in use is released, or, while there are block
numbers left, no file is in the way of the next group. The system refuses nothing any more. -/
inductive CauseGone (s : Storage c (Overflow c)) : Storage c (Overflow c) → Prop
  | released {stack : List UInt32} {blkno : UInt32} {s' : Storage c (Overflow c)}
      (hfree : FreeListOf s.flat stack) (hreach : s.Reaches blkno) (hnot : blkno ∉ stack)
      (hrun : (Nynn.release blkno).run s.healed = (.ok (), s')) : CauseGone s s'
  | fileRemoved (hover : isOverflow c s.superblk.supBlkno = true) :
      CauseGone s s.healed.removeNextFile

/-- What a require that throws leaves: the superblock fields of the allocator, the free list, the
overflow files and the blocks within reach, and a store that works again once the cause is
gone. -/
structure FailsCleanly (s s' : Storage c (Overflow c)) : Prop where
  supBlkno : s'.superblk.supBlkno = s.superblk.supBlkno
  headBlkno : s'.superblk.headBlkno = s.superblk.headBlkno
  numOfFreeBlks : s'.superblk.numOfFreeBlks = s.superblk.numOfFreeBlks
  freeList : ∀ stack, FreeListOf s.flat stack → FreeListOf s'.flat stack
  files : s'.files = s.files
  reaches : ∀ b, s.Reaches b → s'.Reaches b
  recovers : ∀ s₁, CauseGone s' s₁ → ∃ b s₂, (Nynn.require .ok).run s₁ = (.ok b, s₂)

/-- A require either throws and fails cleanly, or returns a block below `BLOCKNO_MAX` and does not
let `supBlkno` wrap around. -/
def CleanRequire (s : Storage c (Overflow c)) (disk : CreateOutcome) : Prop :=
  (∀ e s', (Nynn.require disk).run s = (.error e, s') → FailsCleanly s s') ∧
  ∀ b s', (Nynn.require disk).run s = (.ok b, s') →
    s.superblk.supBlkno ≤ s'.superblk.supBlkno ∧ b < c.blknoMax

/-- A block is free and the head of the free list is got; or no block number is left; or the next
group ends at `BLOCKNO_MAX` or before and its file is made, or is not opened, or was there. -/
structure GrowsCleanly (s : Storage c (Overflow c)) (disk : CreateOutcome) : Prop where
  maps : s.superblk.headBlkno ≠ invalidBlkno → s.Maps s.superblk.headBlkno
  fits : s.superblk.headBlkno = invalidBlkno → isOverflow c s.superblk.supBlkno = true →
    s.superblk.supBlkno.toNat + c.groupSize ≤ c.blknoMax.toNat ∧
      (disk = .ok ∨ (∃ errno, disk = .openFails errno) ∨
        s.files (overflowGroup c s.superblk.supBlkno) = true)

section Clean

variable {s s' : Storage c (Overflow c)} {stack : List UInt32} {disk : CreateOutcome}

/-- A require without a free block that is refused at once changes nothing. -/
private theorem require_refused (hhead : s.superblk.headBlkno = invalidBlkno)
    (hcause : isOverflow c s.superblk.supBlkno = false ∨
      s.files (overflowGroup c s.superblk.supBlkno) = true ∨ ∃ errno, disk = .openFails errno) :
    ∃ e, (require disk).run s = (.error e, s) := by
  rw [require_of_invalid disk hhead, requireUnallocated, Prog.run_get_bind]
  dsimp only
  by_cases hover : isOverflow c s.superblk.supBlkno = true
  · have hcreate : ∃ e, (createMmapFile disk (overflowGroup c s.superblk.supBlkno)).run s =
        (.error e, s) := by
      rw [createMmapFile.eq_def, Prog.run_get_bind]
      by_cases hfile : s.files (overflowGroup c s.superblk.supBlkno) = true
      · rw [if_pos hfile]
        exact ⟨_, rfl⟩
      · rw [if_neg hfile]
        rcases hcause with hnot | hfile' | ⟨errno, rfl⟩
        · exact absurd (hover.symm.trans hnot) Bool.true_eq_false.mp
        · exact absurd hfile' hfile
        · exact ⟨_, rfl⟩
    obtain ⟨e, hcreate⟩ := hcreate
    rw [makeOverflowPath, if_pos hover, Prog.pure_bind]
    exact ⟨e, Prog.run_bind_of_error hcreate⟩
  · rw [makeOverflowPath, if_neg hover]
    exact ⟨_, rfl⟩

/-- The file of the next group is the file of no group that was made. -/
private theorem Sim.removeNextFile {t : FlatStorage c} (h : Sim s t) :
    Sim s.removeNextFile t.removeNextFile := by
  have hsup := h.superblk
  have hne : ∀ b, b < t.superblk.supBlkno →
      overflowGroup c b ≠ overflowGroup c t.superblk.supBlkno := by
    intro b hlt heq
    have hb := toNat_overflowGroup (c := c) b
    have hgroup := toNat_overflowGroup (c := c) t.superblk.supBlkno
    have haligned := h.aligned
    rw [UInt32.lt_iff_toNat_lt] at hlt
    rw [heq] at hb
    omega
  refine ⟨hsup, h.blocks, ?_, h.table, h.aligned, fun b hb hlt => ?_, fun b hb hlt => ?_,
    fun g hg => ?_, h.reopens⟩
  · rw [Storage.removeNextFile, Storage.removeNextFile, hsup, h.files]
  · exact (Function.update_of_ne (hne b hlt) _ _).trans (h.hasFile b hb hlt)
  · rw [Storage.removeNextFile, hsup]
    exact (Function.update_of_ne (hne b hlt) _ _).trans (h.hasBytes b hb hlt)
  · by_cases heq : g = overflowGroup c s.superblk.supBlkno
    · rw [heq] at hg
      exact absurd (hg.symm.trans (Function.update_self ..)) Bool.true_eq_false.mp
    · have hg' : s.emptyFiles g = true := (Function.update_of_ne heq _ _).symm.trans hg
      exact (Function.update_of_ne heq _ _).trans (h.isFile g hg')

/-- A require that succeeds on the store in which every block stays mapped succeeds on one that is
refused nothing. -/
private theorem Sim.require_ok {t : FlatStorage c} {b : UInt32} {t' : FlatStorage c} (h : Sim s t)
    (hfree : FreeListOf t stack) (hrun : (require disk).run t = (.ok b, t')) :
    ∃ b s', (require disk).run s = (.ok b, s') := by
  obtain ⟨s', hs', -⟩ := (require_rel disk).of_ok_right ⟨h, hfree.requireSafe⟩ hrun
  exact ⟨b, s', hs'⟩

private theorem free_removeNextFile {t : FlatStorage c} (h : FreeBlocks t stack) :
    FreeBlocks t.removeNextFile stack := h.congr rfl rfl

/-- When the cause is gone a require succeeds: the released block is free, or a group fits. -/
private theorem require_of_causeGone {s₁ : Storage c (Overflow c)} (h : s.Sound)
    (hfree : FreeBlocks s.flat [])
    (hfit : isOverflow c s.superblk.supBlkno = true →
      s.superblk.supBlkno.toNat + c.groupSize ≤ c.blknoMax.toNat)
    (hgone : CauseGone s s₁) : ∃ b s₂, (Nynn.require .ok).run s₁ = (.ok b, s₂) := by
  cases hgone with
  | @released stack' blkno _ hfree' hreach hnot hrun =>
    obtain rfl := hfree.free.unique hfree'
    obtain ⟨t', hrun', hsim⟩ := Sim.release_of_ok h hfree.free hrun
    obtain ⟨t'', hrun'', hfree'', -⟩ := hfree.release ((h.reaches_iff blkno).mp hreach) hnot
    rw [hrun', Prod.mk.injEq] at hrun''
    obtain ⟨-, rfl⟩ := hrun''
    obtain ⟨t₂, hrun₂, -⟩ := require_cons .ok hfree''.free
    exact hsim.require_ok hfree''.free hrun₂
  | fileRemoved hover =>
    have hfree' := free_removeNextFile hfree
    obtain ⟨t₂, hrun, -⟩ := require_grow hfree'.free
      ⟨hfree.min_le, hfit hover, Function.update_self .., rfl⟩
    exact (Sim.removeNextFile h).require_ok hfree'.free hrun

/-- Under the condition a require that throws does nothing. -/
private theorem eq_of_require_error {e : Fault} (h : s.Sound) (hfree : FreeBlocks s.flat stack)
    (hclean : GrowsCleanly s disk) (hrun : (Nynn.require disk).run s = (.error e, s')) :
    stack = [] ∧ s' = s ∧ (isOverflow c s.superblk.supBlkno = true →
      s.superblk.supBlkno.toNat + c.groupSize ≤ c.blknoMax.toNat) := by
  cases stack with
  | cons top stack =>
    have hne : s.superblk.headBlkno ≠ invalidBlkno := fun e => by
      cases hfree.free.nil_iff.mpr e
    obtain ⟨s₁, hrun₁⟩ := h.require_of_maps hfree.free (hclean.maps hne) disk
    rw [hrun] at hrun₁
    cases hrun₁
  | nil =>
    have hhead : s.superblk.headBlkno = invalidBlkno := hfree.free.nil_iff.mp rfl
    refine ⟨rfl, ?_, fun hover => (hclean.fits hhead hover).1⟩
    have hrefused : isOverflow c s.superblk.supBlkno = false ∨
        s.files (overflowGroup c s.superblk.supBlkno) = true ∨
        ∃ errno, disk = .openFails errno := by
      by_contra hnot
      rw [not_or, not_or, Bool.not_eq_false, Bool.not_eq_true] at hnot
      obtain ⟨hover, hfile, hopen⟩ := hnot
      obtain ⟨hmax, hcause⟩ := hclean.fits hhead hover
      have hok : disk = .ok := by
        rcases hcause with hok | hopen' | hfile'
        · exact hok
        · exact absurd hopen' hopen
        · exact absurd (hfile'.symm.trans hfile) Bool.true_eq_false.mp
      obtain ⟨t', hgrow, -⟩ := require_grow hfree.free ⟨hfree.min_le, hmax, hfile, hok⟩
      rw [require_of_nil disk hhead (Sim.aligned h), hrun] at hgrow
      cases hgrow
    obtain ⟨e', hrun'⟩ := require_refused hhead hrefused
    rw [hrun, Prod.mk.injEq] at hrun'
    exact hrun'.2

private theorem cleanRequire_of_growsCleanly (h : s.Sound) (hfree : FreeBlocks s.flat stack)
    (hlayout : c.overflowBlknoMin ≤ c.blknoMax) (hclean : GrowsCleanly s disk) :
    CleanRequire s disk := by
  refine ⟨fun e s' hrun => ?_, fun b s' hrun => ?_⟩
  · obtain ⟨rfl, rfl, hfit⟩ := eq_of_require_error h hfree hclean hrun
    exact ⟨rfl, rfl, rfl, fun _ => id, rfl, fun _ => id,
      fun s₁ hgone => require_of_causeGone h hfree hfit hgone⟩
  · obtain ⟨t', hrun', hsim⟩ := h.require hfree.free hrun
    have hsup' : s'.superblk.supBlkno = t'.superblk.supBlkno :=
      congrArg SuperBlock.supBlkno hsim.superblk
    rw [hsup']
    cases stack with
    | cons top stack =>
      obtain ⟨t₁, hrun₁, -, hsame⟩ := require_cons disk hfree.free
      rw [hrun', Prod.mk.injEq, Except.ok.injEq] at hrun₁
      obtain ⟨rfl, rfl⟩ := hrun₁
      have hblk := hfree.free.isBlock b List.mem_cons_self
      refine ⟨hsame.supBlkno ▸ UInt32.le_refl _, ?_⟩
      simp only [Storage.isBlock, isFlat, isOverflow, Bool.or_eq_true, Bool.and_eq_true,
        decide_eq_true_iff] at hblk
      rcases hblk with hflat | hover
      · exact UInt32.lt_of_lt_of_le hflat hlayout
      · exact hover.1.2
    | nil =>
      cases hfree.groupOutcome hrun' with
      | made hgrow hsup =>
        have hover := isOverflow_supBlkno hgrow
        rw [isOverflow, Bool.and_eq_true, decide_eq_true_iff, decide_eq_true_iff] at hover
        refine ⟨?_, hover.2⟩
        rw [superblk_flat] at hsup
        rw [UInt32.le_iff_toNat_le]
        omega

private theorem growsCleanly_of_cleanRequire (h : s.Sound) (hfree : FreeBlocks s.flat stack)
    (hclean : CleanRequire s disk) : GrowsCleanly s disk := by
  refine ⟨fun hne => ?_, fun hhead hover => ?_⟩
  · -- The count is wrong after a require that does not get the head.
    by_contra hnot
    obtain ⟨e, s', hrun, hsuper⟩ := h.require_of_not_maps hfree.free hne hnot disk
    have hcount := (hclean.1 e s' hrun).numOfFreeBlks
    rw [hsuper] at hcount
    exact absurd (sub_eq_self.mp hcount) (by decide)
  obtain rfl : stack = [] := hfree.free.nil_iff.mpr hhead
  rcases hrun : (Nynn.require disk).run s with ⟨r, s'⟩
  have hflat := require_of_nil disk hhead (Sim.aligned h)
  rw [hrun] at hflat
  generalize hs' : s'.flat = t' at hflat
  cases hfree.groupOutcome hflat with
  | refused hcause =>
    -- No file is in the way any more, so that the group fits if a require succeeds.
    obtain ⟨e, hrun'⟩ := require_refused hhead hcause
    obtain ⟨b, s₂, hrun₂⟩ := (hclean.1 _ _ hrun').recovers _ (.fileRemoved hover)
    have hfree' := free_removeNextFile hfree
    obtain ⟨t₂, hrun₂', -⟩ := (Sim.removeNextFile h).require_of_ok hfree'.free hrun₂
    have hgrow := canGrow_of_require hfree'.free hfree.min_le hrun₂'
    rcases hcause with hnot | hfile | hopen
    · exact absurd (hover.symm.trans hnot) Bool.true_eq_false.mp
    · exact ⟨hgrow.le_blknoMax, Or.inr (Or.inr hfile)⟩
    · exact ⟨hgrow.le_blknoMax, Or.inr (Or.inl hopen)⟩
  | leftFile _ hfile _ _ _ _ hfiles =>
    exfalso
    have hkept : s'.flat.files = s.files := (hclean.1 _ _ hrun).files
    rw [hs', hfiles] at hkept
    have hsame := congrFun hkept (overflowGroup c s.superblk.supBlkno)
    rw [superblk_flat, Function.update_self] at hsame
    exact absurd (hsame.trans hfile) Bool.true_eq_false.mp
  | made hgrow => exact ⟨hgrow.le_blknoMax, Or.inl rfl⟩
  | beyond _ _ _ hsup =>
    exfalso
    have hkept : s'.flat.superblk.supBlkno = s.superblk.supBlkno := (hclean.1 _ _ hrun).supBlkno
    rw [hs', hsup] at hkept
    have hsame := congrArg UInt32.toNat hkept
    have hone : (1 : UInt32).toNat = 1 := rfl
    have hpos := c.groupSize_pos
    have hsize := c.groupSize_lt
    have hlt := s.superblk.supBlkno.toNat_lt
    rw [superblk_flat, UInt32.toNat_add, UInt32.toNat_add, c.toNat_overflowBlknoMask, hone] at hsame
    omega

end Clean

/-! ### Runs -/

/-- Between the states only vertices and the bytes of the blocks in `out` have changed, files of
groups that are not made, and what the system will answer. -/
structure UsersOnly (s s' : Storage c (Overflow c)) (out : Finset UInt32) : Prop where
  supBlkno : s'.superblk.supBlkno = s.superblk.supBlkno
  headBlkno : s'.superblk.headBlkno = s.superblk.headBlkno
  numOfFreeBlks : s'.superblk.numOfFreeBlks = s.superblk.numOfFreeBlks
  blocks : ∀ b, b ∉ out → s'.blocks b = s.blocks b
  files : ∀ b, isOverflow c b = true → b < s.superblk.supBlkno →
    s'.files (overflowGroup c b) = s.files (overflowGroup c b) ∧
      s'.emptyFiles (overflowGroup c b) = s.emptyFiles (overflowGroup c b)
  isFile : ∀ g, s'.emptyFiles g = true → s'.files g = true
  mmaps : s'.mmaps = s.mmaps
  overflow : s'.overflow = s.overflow

theorem UsersOnly.sound {s s' : Storage c (Overflow c)} {out : Finset UInt32}
    (h : UsersOnly s s' out) (hs : s.Sound) : s'.Sound := by
  have hs' : Sim s.healed s.flat := hs
  refine ⟨rfl, rfl, rfl, ?_, ?_, fun b hb hlt => ?_, fun b hb hlt => ?_, h.isFile, fun _ => rfl⟩
  · change Overflow.WellFormed s'.overflow s'.mmaps
    rw [h.overflow, h.mmaps]
    exact hs'.table
  · rw [superblk_flat, h.supBlkno]
    exact hs'.aligned
  · rw [superblk_flat, h.supBlkno] at hlt
    exact (h.files b hb hlt).1.trans (hs'.hasFile b hb hlt)
  · rw [superblk_flat, h.supBlkno] at hlt
    exact (h.files b hb hlt).2.trans (hs'.hasBytes b hb hlt)

/-- The runs from a formatted storage: requires that meet the condition, whether they throw or not,
releases of blocks that are out, blocks got for the users, and whatever the users do to vertices, to
blocks that are out and to files of groups that are not made. The set in the last argument holds the
blocks that are out. A release that throws changes nothing but the mappings, as two gets do. -/
inductive GrowthRun (minVtxno : UInt32) : Storage c (Overflow c) → Finset UInt32 → Prop
  | format {s : Storage c (Overflow c)} (h : formatOverflow c minVtxno = (.ok (), s)) :
      GrowthRun minVtxno s ∅
  | require {s s' : Storage c (Overflow c)} {out : Finset UInt32} {disk : CreateOutcome}
      {blkno : UInt32} (h : GrowthRun minVtxno s out) (hclean : GrowsCleanly s disk)
      (hrun : (Nynn.require disk).run s = (.ok blkno, s')) :
      GrowthRun minVtxno s' (insert blkno out)
  | requireFails {s s' : Storage c (Overflow c)} {out : Finset UInt32} {disk : CreateOutcome}
      {e : Fault} (h : GrowthRun minVtxno s out) (hclean : GrowsCleanly s disk)
      (hrun : (Nynn.require disk).run s = (.error e, s')) : GrowthRun minVtxno s' out
  | release {s s' : Storage c (Overflow c)} {out : Finset UInt32} {blkno : UInt32}
      (h : GrowthRun minVtxno s out) (hout : blkno ∈ out)
      (hrun : (Nynn.release blkno).run s = (.ok (), s')) : GrowthRun minVtxno s' (out.erase blkno)
  | get {s s' : Storage c (Overflow c)} {out : Finset UInt32} {blkno : UInt32}
      {r : Except Fault (Option Ptr)} (h : GrowthRun minVtxno s out)
      (hrun : (getBlock blkno).run s = (r, s')) : GrowthRun minVtxno s' out
  | users {s s' : Storage c (Overflow c)} {out : Finset UInt32} (h : GrowthRun minVtxno s out)
      (hsame : UsersOnly s s' out) : GrowthRun minVtxno s' out

/-- Along a run the storage has a free list, and the blocks that are out are not in it. -/
theorem GrowthRun.exists_stack {minVtxno : UInt32} {s : Storage c (Overflow c)}
    {out : Finset UInt32} (halign : c.overflowBlknoMin.toNat % c.groupSize = 0)
    (h : GrowthRun minVtxno s out) :
    s.Sound ∧ ∃ stack, FreeBlocks s.flat stack ∧ ∀ b ∈ out, s.isBlock b = true ∧ b ∉ stack := by
  induction h with
  | @format s h =>
    obtain ⟨hnew, hsim⟩ := format_sim halign minVtxno
    rw [h] at hnew hsim
    have hfree := FreeBlocks.of_format (Prod.ext hnew.symm rfl :
      Nynn.format .allMapped minVtxno = (.ok (), (formatFlat c minVtxno).2))
    exact ⟨hsim.healed.sound, _, hfree.congr hsim.superblk hsim.blocks, by simp⟩
  | @require s s' out disk blkno _ _ hrun ih =>
    obtain ⟨hs, stack, hfree, hout⟩ := ih
    obtain ⟨t', hrun', hsim⟩ := hs.require hfree.free hrun
    obtain ⟨stack', hfree', hblk, hnot, hothers⟩ := hfree.require hrun'
    have hisBlock : s'.isBlock = t'.isBlock := funext fun _ => hsim.isBlock_eq
    refine ⟨hsim.sound, stack', hfree'.congr hsim.superblk hsim.blocks, fun b hb => ?_⟩
    rw [hisBlock]
    rcases Finset.mem_insert.mp hb with rfl | hb
    · exact ⟨hblk, hnot⟩
    · obtain ⟨hb', hmem, -⟩ := hothers b (hout b hb).1 (hout b hb).2
      exact ⟨hb', fun hin => hmem (List.mem_cons_of_mem _ hin)⟩
  | @requireFails s s' out disk e _ hclean hrun ih =>
    obtain ⟨hs, stack, hfree, hout⟩ := ih
    obtain ⟨rfl, rfl, -⟩ := eq_of_require_error hs hfree hclean hrun
    exact ⟨hs, [], hfree, hout⟩
  | @release s s' out blkno _ hmem hrun ih =>
    obtain ⟨hs, stack, hfree, hout⟩ := ih
    obtain ⟨t', hrun', hsim⟩ := hs.release hfree.free hrun
    obtain ⟨t₁, hrun₁, hfree', hsame⟩ := hfree.release (hout blkno hmem).1 (hout blkno hmem).2
    rw [hrun', Prod.mk.injEq] at hrun₁
    obtain ⟨-, rfl⟩ := hrun₁
    have hisBlock : s'.isBlock = t'.isBlock := funext fun _ => hsim.isBlock_eq
    refine ⟨hsim.sound, blkno :: stack, hfree'.congr hsim.superblk hsim.blocks, fun b hb => ?_⟩
    obtain ⟨hne, hb⟩ := Finset.mem_erase.mp hb
    rw [hisBlock, hsame.isBlock_eq]
    exact ⟨(hout b hb).1, fun hin => (List.mem_cons.mp hin).elim hne (hout b hb).2⟩
  | @get s s' out blkno r _ hrun ih =>
    obtain ⟨hs, stack, hfree, hout⟩ := ih
    have hsim := hs.getBlock hrun
    have hisBlock : s'.isBlock = s.isBlock := funext fun _ => hsim.isBlock_eq
    refine ⟨hsim.sound, stack, hfree.congr hsim.superblk hsim.blocks, ?_⟩
    rw [hisBlock]
    exact hout
  | @users s s' out _ hsame ih =>
    obtain ⟨hs, stack, hfree, hout⟩ := ih
    have hisBlock : s'.isBlock = s.isBlock := by
      funext b
      rw [Storage.isBlock, Storage.isBlock, hsame.supBlkno]
    refine ⟨hsame.sound hs, stack, ⟨hfree.free.congr hsame.headBlkno hsame.numOfFreeBlks
      hsame.supBlkno fun b hb => hsame.blocks b fun hin => (hout b hin).2 hb, ?_, ?_⟩, ?_⟩
    · rw [superblk_flat, hsame.supBlkno]
      exact hfree.min_le
    · rw [superblk_flat, hsame.supBlkno]
      exact hfree.le_max
    · rw [hisBlock]
      exact hout

/-- **Growing fails cleanly.** In every state of a run a require fails cleanly, or returns a block
of the block space, if and only if a block is free and the head of the free list is mapped or mapped
again, or no block number is left, or the next group ends at `BLOCKNO_MAX` or before and the
creation of its file either succeeds or fails at `open`. -/
theorem cleanRequire_iff {minVtxno : UInt32} {s : Storage c (Overflow c)} {out : Finset UInt32}
    (hlayout : c.overflowBlknoMin ≤ c.blknoMax)
    (halign : c.overflowBlknoMin.toNat % c.groupSize = 0) (h : GrowthRun minVtxno s out)
    (disk : CreateOutcome) : CleanRequire s disk ↔ GrowsCleanly s disk := by
  obtain ⟨hs, stack, hfree, -⟩ := h.exists_stack halign
  exact ⟨growsCleanly_of_cleanRequire hs hfree, cleanRequire_of_growsCleanly hs hfree hlayout⟩

/-- A small configuration whose next group reaches behind `BLOCKNO_MAX`. -/
def Config.straddling : Config := { Config.small with blknoMax := 3 }

/-- A new storage. -/
private def newStorage (c : Config) : Storage c (Overflow c) := (formatOverflow c 0).2

/-- The state after two requires on a new storage. -/
def volumeTaken (c : Config) : Storage c (Overflow c) :=
  ((Nynn.require .ok).run ((Nynn.require .ok).run (newStorage c)).2).2

/-- A run in which the two blocks of the volume are taken. -/
private theorem growthRun_volumeTaken
    (h₀ : (formatOverflow c 0).1 = .ok ())
    (h₁ : ((Nynn.require .ok).run (newStorage c)).1 = .ok 0)
    (h₂ : ((Nynn.require .ok).run ((Nynn.require .ok).run (newStorage c)).2).1 = .ok 1)
    (hhead : isFlat c (newStorage c).superblk.headBlkno = true)
    (hhead' : isFlat c ((Nynn.require .ok).run (newStorage c)).2.superblk.headBlkno = true) :
    GrowthRun 0 (volumeTaken c) {1, 0} := by
  have hclean {s : Storage c (Overflow c)} (hflat : isFlat c s.superblk.headBlkno = true) :
      GrowsCleanly s .ok := by
    refine ⟨fun _ => Or.inl hflat, fun hinv _ => ?_⟩
    rw [hinv, isFlat, decide_eq_true_iff, UInt32.lt_iff_toNat_lt] at hflat
    have hlt := c.overflowBlknoMin.toNat_lt
    have hmax : invalidBlkno.toNat = 2 ^ 32 - 1 := rfl
    omega
  exact ((GrowthRun.format (Prod.ext h₀ rfl)).require (hclean hhead) (Prod.ext h₁ rfl)).require
    (hclean hhead') (Prod.ext h₂ rfl)

/-- In the small storage the blocks of the volume are out, and the next overflow file cannot be
opened. -/
theorem cleanRequire_iff_small :
    CleanRequire (volumeTaken Config.small) (.openFails "No space left on device") :=
  (cleanRequire_iff (by decide) (by decide) (growthRun_volumeTaken (by decide +kernel)
    (by decide +kernel) (by decide +kernel) (by decide +kernel) (by decide +kernel)) _).mpr
      ⟨fun hne => absurd (by decide +kernel) hne, fun _ _ =>
        ⟨by decide +kernel, Or.inr (Or.inl ⟨_, rfl⟩)⟩⟩

/-- The group that reaches behind `BLOCKNO_MAX`: the require throws, and `supBlkno` has moved. -/
theorem cleanRequire_false_of_straddling :
    ¬∀ (s : Storage Config.straddling (Overflow Config.straddling)) (out : Finset UInt32),
      GrowthRun 0 s out → ∀ disk, CleanRequire s disk := by
  intro hall
  have hrun : GrowthRun 0 (volumeTaken Config.straddling) {1, 0} :=
    growthRun_volumeTaken (by decide +kernel) (by decide +kernel) (by decide +kernel)
      (by decide +kernel) (by decide +kernel)
  have hthrows : (Nynn.require .ok).run (volumeTaken Config.straddling) =
      (.error (.exception "The released block is NULL!"),
        ((Nynn.require .ok).run (volumeTaken Config.straddling)).2) :=
    Prod.ext (by decide +kernel) rfl
  have hsup := ((hall _ _ hrun .ok).1 _ _ hthrows).supBlkno
  revert hsup
  decide +kernel

end Nynn
