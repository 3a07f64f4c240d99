import Nynn.Storage.FreeList
import Mathlib.Data.List.Range

/-!
# New blocks

A new storage has the blocks of its volume on the free list. When no block is free a require makes
a group of overflow blocks: it creates the file of the group and puts the blocks of the group on
the free list.

Source: `nynn_mm_subgraph_storage.h`.

## Main definitions

* `Nynn.blknoRange`: consecutive block numbers.
* `Nynn.CanGrow`: a new group of overflow blocks can be made.
* `Nynn.GroupsMade`: the blocks of a storage are the numbers below `supBlkno`.

## Main results

* `Nynn.require_grow`: a require on the empty stack makes a group.
* `Nynn.canGrow_of_require`: a require on the empty stack succeeds only so.
* `Nynn.format_spec`: a new storage.
* `Nynn.of_format_eq_ok`: what it needs.
* `Nynn.initVertices_apply`, `Nynn.initVertices_of_last`: the vertices of a new storage.
-/

namespace Nynn

open Program

variable {c : Config}

/-! ### New blocks -/

/-- The block numbers `first`, `first + 1` and so on, `n` of them. -/
def blknoRange (first : UInt32) (n : ℕ) : List UInt32 :=
  (List.range n).map fun i => first + UInt32.ofNat i

theorem blknoRange_succ (first : UInt32) (n : ℕ) :
    blknoRange first (n + 1) = blknoRange first n ++ [first + UInt32.ofNat n] := by
  simp [blknoRange, List.range_succ]

theorem blknoRange_cons (first : UInt32) (n : ℕ) :
    blknoRange first (n + 1) = first :: blknoRange (first + 1) n := by
  simp only [blknoRange, List.range_succ_eq_map, List.map_cons, List.map_map, List.cons.injEq]
  refine ⟨UInt32.add_zero first, List.map_congr_left fun i _ => ?_⟩
  rw [Function.comp_apply, Nat.succ_eq_add_one, UInt32.ofNat_add, UInt32.add_assoc, UInt32.add_comm (UInt32.ofNat i)]
  rfl

theorem length_blknoRange (first : UInt32) (n : ℕ) : (blknoRange first n).length = n := by
  simp [blknoRange]

theorem mem_blknoRange {first b : UInt32} {n : ℕ} :
    b ∈ blknoRange first n ↔ ∃ i < n, first + UInt32.ofNat i = b := by
  simp [blknoRange]

theorem nodup_blknoRange (first : UInt32) {n : ℕ} (hn : n ≤ 2 ^ 32) :
    (blknoRange first n).Nodup := by
  refine List.Nodup.map_on (fun i hi j hj hij => ?_) List.nodup_range
  have hi' : i < 2 ^ 32 := (List.mem_range.mp hi).trans_le hn
  have hj' : j < 2 ^ 32 := (List.mem_range.mp hj).trans_le hn
  have := congrArg UInt32.toNat ((UInt32.add_right_inj first).mp hij)
  rwa [UInt32.toNat_ofNat_of_lt' hi', UInt32.toNat_ofNat_of_lt' hj'] at this

section NewBlocks

variable {s : FlatStorage c} {stack : List UInt32}

/-- Releasing a range of blocks, the greatest first, puts the range on the stack. -/
theorem releaseGroup_spec (first : UInt32) {n : ℕ} (hn : n ≤ 2 ^ 32) (h : FreeListOf s stack)
    (hblk : ∀ b ∈ blknoRange first n, s.isBlock b = true)
    (hnot : ∀ b ∈ blknoRange first n, b ∉ stack) :
    ∃ s', (releaseGroup first n).run s = (.ok (), s') ∧
      FreeListOf s' (blknoRange first n ++ stack) ∧
      SameOutside s s' (blknoRange first n ++ stack) := by
  induction n generalizing s stack with
  | zero => exact ⟨s, rfl, h, SameOutside.refl s _⟩
  | succ n ih =>
    have hnd := nodup_blknoRange first hn
    rw [blknoRange_succ] at hblk hnot hnd ⊢
    obtain ⟨s₁, hrun₁, hfree₁, hsame₁⟩ := releaseRaw_spec h (hblk (first + UInt32.ofNat n)
      (by simp)) (hnot (first + UInt32.ofNat n) (by simp))
    have hlast : first + UInt32.ofNat n ∉ blknoRange first n := fun hmem =>
      (List.nodup_append.mp hnd).2.2 _ hmem _ (by simp) rfl
    obtain ⟨s₂, hrun₂, hfree₂, hsame₂⟩ := ih (by omega) hfree₁
      (fun b hb => by
        rw [hsame₁.isBlock_eq]
        exact hblk b (List.mem_append_left _ hb))
      (fun b hb hmem => by
        rcases List.mem_cons.mp hmem with rfl | hmem
        · exact hlast hb
        · exact hnot b (List.mem_append_left _ hb) hmem)
    rw [List.append_assoc, List.singleton_append]
    refine ⟨s₂, ?_, hfree₂, (hsame₁.mono fun b hb => List.mem_append_right _ hb).trans hsame₂⟩
    rw [releaseGroup, Prog.run_bind_of_ok hrun₁, hrun₂]

/-- A new group of overflow blocks can be made: the next block number is one of an overflow block,
the group has no file yet and gets one, and its numbers stay below `BLOCKNO_MAX`. -/
structure CanGrow (s : FlatStorage c) (disk : CreateOutcome) : Prop where
  le_supBlkno : c.overflowBlknoMin ≤ s.superblk.supBlkno
  le_blknoMax : s.superblk.supBlkno.toNat + c.groupSize ≤ c.blknoMax.toNat
  no_file : s.files (overflowGroup c s.superblk.supBlkno) = false
  disk_ok : disk = .ok

theorem toNat_add_overflowBlknoMask_add_one {blkno : UInt32}
    (h : blkno.toNat + c.groupSize ≤ c.blknoMax.toNat) :
    (blkno + c.overflowBlknoMask + 1).toNat = blkno.toNat + c.groupSize := by
  have hmax := c.blknoMax.toNat_lt
  have hpos := c.groupSize_pos
  rw [UInt32.toNat_add, UInt32.toNat_add, c.toNat_overflowBlknoMask,
    show (1 : UInt32).toNat = 1 from rfl]
  omega

/-- The state after a group of overflow blocks got its file. -/
def Storage.newGroup (s : FlatStorage c) : FlatStorage c :=
  { s with
    superblk := { s.superblk with supBlkno := s.superblk.supBlkno + c.overflowBlknoMask + 1 }
    files := Function.update s.files (overflowGroup c s.superblk.supBlkno) true
    mmaps := s.mmaps + 1 }

theorem isOverflow_supBlkno {disk : CreateOutcome} (h : CanGrow s disk) :
    isOverflow c s.superblk.supBlkno = true := by
  have hpos := c.groupSize_pos
  have hle := h.le_blknoMax
  rw [isOverflow, Bool.and_eq_true, decide_eq_true_iff, decide_eq_true_iff,
    UInt32.lt_iff_toNat_lt]
  exact ⟨h.le_supBlkno, by omega⟩

/-- When the file of the next group can be made, the blocks of the group are released. -/
theorem requireUnallocated_run (hover : isOverflow c s.superblk.supBlkno = true)
    (hfile : s.files (overflowGroup c s.superblk.supBlkno) = false) :
    (requireUnallocated .ok).run s =
      (do releaseGroup s.superblk.supBlkno c.groupSize; requireAllocated :
        StorageM c AllMapped UInt32).run s.newGroup := by
  have hpath : (makeOverflowPath s.superblk.supBlkno : StorageM c AllMapped UInt32).run s =
      (.ok (overflowGroup c s.superblk.supBlkno), s) := by
    rw [makeOverflowPath, if_pos hover, Prog.run_pure]
  have hcreate : (createMmapFile .ok (overflowGroup c s.superblk.supBlkno) :
      StorageM c AllMapped Mapping).run s =
        (.ok ⟨s.mmaps, overflowGroup c s.superblk.supBlkno⟩,
          { s with
            files := Function.update s.files (overflowGroup c s.superblk.supBlkno) true
            mmaps := s.mmaps + 1 }) := by
    rw [createMmapFile, Prog.run_get_bind, hfile]
    rfl
  rw [requireUnallocated, Prog.run_get_bind, Prog.run_bind_of_ok hpath,
    Prog.run_bind_of_ok hcreate]
  rfl

/-- The numbers of the blocks of a new group. -/
theorem toNat_mem_newGroup {disk : CreateOutcome} (h : CanGrow s disk) {b : UInt32}
    (hb : b ∈ blknoRange s.superblk.supBlkno c.groupSize) :
    s.superblk.supBlkno.toNat ≤ b.toNat ∧
      b.toNat < s.superblk.supBlkno.toNat + c.groupSize := by
  obtain ⟨i, hi, rfl⟩ := mem_blknoRange.mp hb
  have hmax := c.blknoMax.toNat_lt
  have hle := h.le_blknoMax
  have hsize := c.groupSize_lt
  rw [UInt32.toNat_add, UInt32.toNat_ofNat_of_lt' (show i < 2 ^ 32 by omega), Nat.mod_eq_of_lt]
  · omega
  · omega

/-- A new group adds its blocks and leaves the others. -/
theorem isBlock_newGroup {disk : CreateOutcome} (h : CanGrow s disk) (b : UInt32) :
    s.newGroup.isBlock b = true ↔
      s.isBlock b = true ∨ b ∈ blknoRange s.superblk.supBlkno c.groupSize := by
  have hsup : (s.superblk.supBlkno + c.overflowBlknoMask + 1).toNat = _ :=
    toNat_add_overflowBlknoMask_add_one h.le_blknoMax
  have hle := h.le_blknoMax
  have hmin := h.le_supBlkno
  have hmem : b ∈ blknoRange s.superblk.supBlkno c.groupSize ↔
      s.superblk.supBlkno.toNat ≤ b.toNat ∧
        b.toNat < s.superblk.supBlkno.toNat + c.groupSize := by
    refine ⟨toNat_mem_newGroup h, fun ⟨h₁, h₂⟩ => mem_blknoRange.mpr
      ⟨b.toNat - s.superblk.supBlkno.toNat, by omega, ?_⟩⟩
    apply UInt32.toNat_inj.mp
    have hb := b.toNat_lt
    have hlt : b.toNat - s.superblk.supBlkno.toNat < 2 ^ 32 := by omega
    rw [UInt32.toNat_add, UInt32.toNat_ofNat_of_lt' hlt, Nat.mod_eq_of_lt] <;> omega
  rw [hmem]
  simp only [Storage.isBlock, isFlat, isOverflow, Bool.or_eq_true, Bool.and_eq_true,
    decide_eq_true_iff, UInt32.lt_iff_toNat_lt, UInt32.le_iff_toNat_le, Storage.newGroup,
    hsup] at hmin ⊢
  omega

/-- **A require on the empty stack makes a new group.** It takes the first block of the group and
leaves the others on the stack. -/
theorem require_grow {disk : CreateOutcome} (h : FreeListOf s []) (hgrow : CanGrow s disk) :
    ∃ s', (require disk).run s = (.ok s.superblk.supBlkno, s') ∧
      FreeListOf s' (blknoRange (s.superblk.supBlkno + 1) (c.groupSize - 1)) ∧
      s'.superblk.supBlkno = s.superblk.supBlkno + c.overflowBlknoMask + 1 ∧
      s'.superblk.vertices = s.superblk.vertices ∧
      s'.files = Function.update s.files (overflowGroup c s.superblk.supBlkno) true ∧
      ∀ b, b ∉ blknoRange s.superblk.supBlkno c.groupSize → s'.blocks b = s.blocks b := by
  have hpos := c.groupSize_pos
  have hsize := c.groupSize_lt
  have hnew : FreeListOf s.newGroup [] :=
    ⟨h.chain, List.nodup_nil, by simp, h.count⟩
  obtain ⟨s₁, hrun₁, hfree₁, hsame₁⟩ := releaseGroup_spec s.superblk.supBlkno
    (Nat.le_of_lt hsize) hnew (fun b hb => (isBlock_newGroup hgrow b).mpr (Or.inr hb)) (by simp)
  have hrange : blknoRange s.superblk.supBlkno c.groupSize =
      s.superblk.supBlkno :: blknoRange (s.superblk.supBlkno + 1) (c.groupSize - 1) := by
    rw [← blknoRange_cons, Nat.sub_add_cancel hpos]
  rw [List.append_nil, hrange] at hfree₁ hsame₁
  obtain ⟨s₂, hrun₂, hfree₂, hsame₂⟩ := requireAllocated_cons hfree₁
  have hsame := hsame₁.trans hsame₂
  refine ⟨s₂, ?_, hfree₂, hsame.supBlkno, hsame.vertices, hsame.files, ?_⟩
  · rw [require_nil disk h, hgrow.disk_ok,
      requireUnallocated_run (isOverflow_supBlkno hgrow) hgrow.no_file,
      Prog.run_bind_of_ok hrun₁, hrun₂]
  · rw [hrange]
    exact hsame.blocks

/-- A require on a stack that is not empty takes its top. -/
theorem require_cons {blkno : UInt32} (disk : CreateOutcome)
    (h : FreeListOf s (blkno :: stack)) :
    ∃ s', (require disk).run s = (.ok blkno, s') ∧ FreeListOf s' stack ∧
      SameOutside s s' (blkno :: stack) := by
  obtain ⟨s', hrun, hfree, hsame⟩ := requireAllocated_cons h
  have hne := ne_invalidBlkno_of_isBlock (h.isBlock blkno List.mem_cons_self)
  refine ⟨s', ?_, hfree, hsame⟩
  rw [require, Prog.run_bind_of_ok hrun, if_neg hne, Prog.run_pure]

end NewBlocks

/-! ### What a require on the empty stack needs -/

section Succeeds

variable {M : Type}

/-- What the functions on the free list leave alone: `supBlkno` and the vertices. -/
def Storage.outer (s : Storage c M) : UInt32 × (Fin c.vertexIntervalWidth → Vertex) :=
  (s.superblk.supBlkno, s.superblk.vertices)

theorem keeps_outer {α : Type} {x : StorageM c M α} (h : Keeps Storage.superblk x) :
    Keeps Storage.outer x := h.comp fun sb => (sb.supBlkno, sb.vertices)

theorem keeps_mmapFile (path : UInt32) :
    Keeps Storage.superblk (mmapFile path : StorageM c M Mapping) := by
  refine Keeps.bind Keeps.get fun s => Keeps.ite (Keeps.ite (Keeps.fail _) ?_) (Keeps.fail _)
  cases s.reopens s.mmaps with
  | none =>
    exact Keeps.bind Keeps.get fun _ => Keeps.bind (Keeps.modify fun _ => rfl) fun _ => Keeps.pure _
  | some errno => exact Keeps.bind (Keeps.modify fun _ => rfl) fun _ => Keeps.fail _

variable [OverflowTable M]

theorem keeps_getBlock (blkno : UInt32) :
    Keeps Storage.superblk (getBlock blkno : StorageM c M (Option Ptr)) := by
  refine Keeps.ite (Keeps.pure _) (Keeps.bind Keeps.get fun s => ?_)
  refine Keeps.ite (Keeps.bind ?_ fun _ => Keeps.pure _) (Keeps.pure _)
  refine Keeps.bind (Keeps.bind Keeps.get fun _ => Keeps.bind (Keeps.modify fun _ => rfl)
    fun _ => Keeps.pure _) fun r => ?_
  cases r with
  | some m => exact Keeps.pure _
  | none =>
    exact Keeps.bind (Keeps.ite (Keeps.pure _) (Keeps.fail _)) fun path =>
      Keeps.bind (keeps_mmapFile path) fun m => Keeps.bind (Keeps.modify fun _ => rfl) fun _ =>
        Keeps.pure _

theorem keeps_deref (p : Option Ptr) :
    Keeps Storage.superblk (deref p : StorageM c M (Block c.blockSz)) := by
  cases p with
  | none => exact Keeps.fail _
  | some p => exact Keeps.bind Keeps.get fun s => Keeps.ite (Keeps.pure _) (Keeps.fail _)

theorem keeps_assign (p : Option Ptr) (blk : Block c.blockSz) :
    Keeps Storage.superblk (assign p blk : StorageM c M Unit) := by
  cases p with
  | none => exact Keeps.fail _
  | some p =>
    exact Keeps.bind Keeps.get fun s => Keeps.ite (Keeps.modify fun _ => rfl) (Keeps.fail _)

theorem keeps_modifyBlock (p : Option Ptr) (f : Block c.blockSz → Block c.blockSz) :
    Keeps Storage.superblk (modifyBlock p f : StorageM c M Unit) :=
  Keeps.bind (keeps_deref p) fun _ => keeps_assign p _

theorem keeps_pushIndex (p : Option Ptr) (blkno : UInt32) :
    Keeps Storage.superblk (pushIndex p blkno : StorageM c M Unit) := by
  refine Keeps.bind (keeps_deref p) fun blk => ?_
  cases blk.pushIndex blkno with
  | none => exact Keeps.fail _
  | some blk' => exact keeps_assign p blk'

/-- A release never moves `supBlkno` and changes no vertex. -/
theorem keeps_releaseRaw (blkno : UInt32) :
    Keeps Storage.outer (releaseRaw blkno : StorageM c M Unit) := by
  refine Keeps.bind Keeps.get fun s => Keeps.bind (keeps_outer (keeps_getBlock blkno)) fun p => ?_
  cases p with
  | none => exact Keeps.fail _
  | some p =>
    have hinc : Keeps Storage.outer (incNumberOfFreeBlks : StorageM c M Unit) :=
      Keeps.modify fun _ => rfl
    have hput (newHead : Bool) : Keeps Storage.outer (
        if newHead then do
          modifyBlock (some p) Block.initIndexBlock
          pushIndex (some p) s.superblk.headBlkno
          setHeadBlkno blkno
          incNumberOfFreeBlks
        else do
          let headBlk ← getBlock s.superblk.headBlkno
          pushIndex headBlk blkno
          incNumberOfFreeBlks : StorageM c M Unit) := by
      refine Keeps.ite ?_ ?_
      · exact Keeps.bind (keeps_outer (keeps_modifyBlock _ _)) fun _ =>
          Keeps.bind (keeps_outer (keeps_pushIndex _ _)) fun _ =>
            Keeps.bind (Keeps.modify fun _ => rfl) fun _ => hinc
      · exact Keeps.bind (keeps_outer (keeps_getBlock _)) fun q =>
          Keeps.bind (keeps_outer (keeps_pushIndex q _)) fun _ => hinc
    exact Keeps.ite (hput true) (Keeps.bind (keeps_outer (keeps_getBlock _)) fun q =>
      Keeps.bind (keeps_outer (keeps_deref q)) fun b => hput b.isAtTop)

theorem keeps_releaseGroup (first : UInt32) (n : ℕ) :
    Keeps Storage.outer (releaseGroup first n : StorageM c M Unit) := by
  induction n with
  | zero => exact Keeps.pure _
  | succ n ih => exact Keeps.bind (keeps_releaseRaw _) fun _ => ih

end Succeeds

section Needs

variable {s s' : FlatStorage c} {stack : List UInt32}

/-- The loop over a new group fails when one of its numbers is the number of no block. -/
theorem releaseGroup_of_not_isBlock (first : UInt32) {n i : ℕ} (hi : i < n)
    (hnot : s.isBlock (first + UInt32.ofNat i) = false) (r : Unit) :
    (releaseGroup first n).run s ≠ (.ok r, s') := by
  induction n generalizing s with
  | zero => omega
  | succ n ih =>
    intro hrun
    obtain ⟨u, s₁, hrun₁, hrun₂⟩ := Prog.of_bind_eq_ok hrun
    have hsup := keeps_releaseRaw (c := c) (M := AllMapped) (first + UInt32.ofNat n) s
    rw [hrun₁] at hsup
    by_cases hin : i = n
    · subst hin
      rw [releaseRaw, Prog.run_get_bind,
        Prog.run_bind_of_ok (getBlock_of_not_isBlock hnot)] at hrun₁
      cases hrun₁
    · refine ih (s := s₁) (by omega) ?_ hrun₂
      have hsup' : s₁.superblk.supBlkno = s.superblk.supBlkno := congrArg Prod.fst hsup
      rwa [Storage.isBlock, hsup']

/-- **What a require on the empty stack needs.** It succeeds only if a group can be made. -/
theorem canGrow_of_require {disk : CreateOutcome} {blkno : UInt32} (h : FreeListOf s [])
    (hmin : c.overflowBlknoMin ≤ s.superblk.supBlkno)
    (hrun : (require disk).run s = (.ok blkno, s')) : CanGrow s disk := by
  rw [require_nil disk h, requireUnallocated, Prog.run_get_bind] at hrun
  obtain ⟨path, s₁, hpath, hrun₁⟩ := Prog.of_bind_eq_ok hrun
  have hover : isOverflow c s.superblk.supBlkno = true := by
    by_contra hover
    rw [makeOverflowPath, if_neg hover] at hpath
    cases hpath
  rw [makeOverflowPath, if_pos hover, Prog.run_pure, Prod.mk.injEq, Except.ok.injEq] at hpath
  obtain ⟨rfl, rfl⟩ := hpath
  obtain ⟨m, s₁, hfile, hrun₂⟩ := Prog.of_bind_eq_ok hrun₁
  rw [createMmapFile.eq_def, Prog.run_get_bind] at hfile
  have hno : s.files (overflowGroup c s.superblk.supBlkno) = false := by
    by_contra hno
    rw [Bool.not_eq_false] at hno
    rw [if_pos hno] at hfile
    cases hfile
  rw [hno] at hfile
  cases disk with
  | openFails errno => cases hfile
  | writeFails errno => cases hfile
  | laterCallFails errno => cases hfile
  | ok =>
    refine ⟨hmin, ?_, hno, rfl⟩
    by_contra hmax
    obtain ⟨-, s₂, -, hrun₃⟩ := Prog.of_bind_eq_ok hrun₂
    obtain ⟨-, s₃, -, hrun₄⟩ := Prog.of_bind_eq_ok hrun₃
    obtain ⟨u, s₄, hgroup, -⟩ := Prog.of_bind_eq_ok hrun₄
    -- `BLOCKNO_MAX` itself is a number of the new group, but of no block.
    rw [isOverflow, Bool.and_eq_true, decide_eq_true_iff, decide_eq_true_iff,
      UInt32.lt_iff_toNat_lt, UInt32.le_iff_toNat_le] at hover
    have hlt := c.blknoMax.toNat_lt
    refine releaseGroup_of_not_isBlock s.superblk.supBlkno
      (i := c.blknoMax.toNat - s.superblk.supBlkno.toNat) (by omega) ?_ u hgroup
    have hmem : s.superblk.supBlkno + UInt32.ofNat
        (c.blknoMax.toNat - s.superblk.supBlkno.toNat) = c.blknoMax := by
      have hdiff : c.blknoMax.toNat - s.superblk.supBlkno.toNat < 2 ^ 32 := by omega
      apply UInt32.toNat_inj.mp
      rw [UInt32.toNat_add, UInt32.toNat_ofNat_of_lt' hdiff, Nat.mod_eq_of_lt] <;> omega
    rw [hmem]
    have hflat : ¬c.blknoMax < c.overflowBlknoMin := by
      rw [UInt32.lt_iff_toNat_lt]
      omega
    simp [Storage.isBlock, isFlat, isOverflow, hflat, UInt32.lt_irrefl]

end Needs

/-! ### Formatting -/

/-- The volume has blocks, and its size is not truncated. -/
structure Config.VolumeFits (c : Config) : Prop where
  pos : 0 < c.overflowBlknoMin.toNat
  lt : c.overflowBlknoMin.toNat * c.blockSz.bytes < 2 ^ 32

theorem Config.toNat_volumeSize (c : Config) :
    c.volumeSize.toNat = c.overflowBlknoMin.toNat * c.blockSz.bytes % 2 ^ 32 :=
  UInt32.toNat_ofNat'

theorem Config.VolumeFits.toNat_volumeSize (h : c.VolumeFits) :
    c.volumeSize.toNat = c.overflowBlknoMin.toNat * c.blockSz.bytes := by
  rw [c.toNat_volumeSize, Nat.mod_eq_of_lt h.lt]

theorem Config.VolumeFits.not_volumeSize_lt (h : c.VolumeFits) : ¬c.volumeSize < 4 := by
  have hbytes := c.blockSz.le_bytes
  have hle := Nat.mul_le_mul h.pos hbytes
  rw [UInt32.lt_iff_toNat_lt, h.toNat_volumeSize, show (4 : UInt32).toNat = 4 from rfl]
  omega

theorem releaseVolume_eq {M : Type} [OverflowTable M] (h : c.VolumeFits) {n : ℕ}
    (hn : n ≤ c.overflowBlknoMin.toNat) :
    (releaseVolume n : StorageM c M Unit) = releaseGroup 0 n := by
  induction n with
  | zero => rfl
  | succ n ih =>
    have hfits : (n + 1) * c.blockSz.bytes ≤ c.volumeSize.toNat := by
      rw [h.toNat_volumeSize]
      exact Nat.mul_le_mul_right _ hn
    rw [releaseVolume, releaseGroup, ih (by omega), if_pos hfits, release, UInt32.zero_add]

/-- A volume that is not as large as its blocks is written behind its end. -/
private theorem releaseVolume_run_of_not_fits {M : Type} [OverflowTable M]
    (hpos : 0 < c.overflowBlknoMin.toNat)
    (hlt : ¬c.overflowBlknoMin.toNat * c.blockSz.bytes < 2 ^ 32) (s : Storage c M) :
    (releaseVolume c.overflowBlknoMin.toNat).run s = (.error .outOfRange, s) := by
  obtain ⟨n, hn⟩ := Nat.exists_eq_add_of_lt hpos
  rw [Nat.zero_add] at hn
  have hnot : ¬(n + 1) * c.blockSz.bytes ≤ c.volumeSize.toNat := by
    have hsize := c.volumeSize.toNat_lt
    rw [← hn]
    omega
  rw [hn, releaseVolume, if_neg hnot, Prog.run_fail_bind]

/-- Every slot is mapped when the size of the superblock is not truncated. -/
theorem slotMapped_of_lt (hfits : 12 + 20 * c.vertexIntervalWidth < 2 ^ 32) {slot : ℕ}
    (hslot : slot < c.vertexIntervalWidth) : slotMapped c slot := by
  rw [slotMapped, SuperBlock.size, UInt32.toNat_ofNat_of_lt' hfits]
  omega

theorem not_slotMapped_of_le (hfits : 2 ^ 32 ≤ 12 + 20 * c.vertexIntervalWidth) :
    ¬slotMapped c (c.vertexIntervalWidth - 1) := by
  have hsize := (SuperBlock.size c).toNat_lt
  have hpos := c.vertexIntervalWidth_pos
  rw [slotMapped]
  omega

section InitVertices

variable {minVtxno : UInt32} {vertices vertices' : Fin c.vertexIntervalWidth → Vertex}

/-- A round of the loop of `setMinVtxno`, in an interval that ends before `2 ^ 32`. -/
private theorem initVertices_succ (hmin : minVtxno.toNat + c.vertexIntervalWidth < 2 ^ 32)
    {fuel k : ℕ} (hk : k + (fuel + 1) = c.vertexIntervalWidth) :
    initVertices minVtxno (fuel + 1) (minVtxno + UInt32.ofNat k) vertices =
      if slotMapped c k then
        initVertices minVtxno fuel (minVtxno + UInt32.ofNat (k + 1)) fun i =>
          if i.val = k then Vertex.new (minVtxno + UInt32.ofNat k) else vertices i
      else none := by
  have hadd : ∀ j ≤ c.vertexIntervalWidth,
      (minVtxno + UInt32.ofNat j).toNat = minVtxno.toNat + j := fun j hj => by
    rw [UInt32.toNat_add, UInt32.toNat_ofNat_of_lt' (show j < 2 ^ 32 by omega), Nat.mod_eq_of_lt]
    omega
  have hlt : minVtxno + UInt32.ofNat k < minVtxno + UInt32.ofNat c.vertexIntervalWidth := by
    rw [UInt32.lt_iff_toNat_lt, hadd k (by omega), hadd _ le_rfl]
    omega
  have hslot : vertexSlot minVtxno (minVtxno + UInt32.ofNat k) = k := by
    rw [vertexSlot, UInt32.add_comm, UInt32.add_sub_cancel,
      UInt32.toNat_ofNat_of_lt' (show k < 2 ^ 32 by omega)]
  have hnext : minVtxno + UInt32.ofNat k + 1 = minVtxno + UInt32.ofNat (k + 1) := by
    rw [UInt32.ofNat_add, UInt32.add_assoc]
    rfl
  rw [initVertices, if_pos hlt, hslot, hnext]

/-- The loop of `setMinVtxno` from the `k`-th vertex on gives the later vertices their numbers, in
an interval that ends before `2 ^ 32`. -/
theorem initVertices_apply (hmin : minVtxno.toNat + c.vertexIntervalWidth < 2 ^ 32) {fuel k : ℕ}
    (hk : k + fuel = c.vertexIntervalWidth)
    (h : initVertices minVtxno fuel (minVtxno + UInt32.ofNat k) vertices = some vertices')
    (i : Fin c.vertexIntervalWidth) :
    vertices' i = if k ≤ i.val then Vertex.new (minVtxno + UInt32.ofNat i.val)
      else vertices i := by
  induction fuel generalizing k vertices with
  | zero =>
    rw [initVertices, Option.some.injEq] at h
    rw [if_neg (by omega), h]
  | succ fuel ih =>
    rw [initVertices_succ hmin hk] at h
    split_ifs at h
    rw [ih (by omega) h]
    by_cases hik : i.val = k
    · rw [if_neg (by omega), if_pos hik, if_pos (by omega), hik]
    · by_cases hle : k + 1 ≤ i.val
      · rw [if_pos hle, if_pos (by omega)]
      · rw [if_neg hle, if_neg hik, if_neg (by omega)]

/-- In an interval that ends before `2 ^ 32` the loop comes to its end if and only if every slot is
mapped. -/
theorem exists_initVertices_iff (hmin : minVtxno.toNat + c.vertexIntervalWidth < 2 ^ 32) {fuel k : ℕ}
    (hk : k + (fuel + 1) = c.vertexIntervalWidth) :
    (∃ vertices', initVertices minVtxno (fuel + 1) (minVtxno + UInt32.ofNat k) vertices =
      some vertices') ↔ 12 + 20 * c.vertexIntervalWidth < 2 ^ 32 := by
  refine ⟨?_, fun hfits => ?_⟩
  · rintro ⟨vertices', h⟩
    by_contra hfits
    induction fuel generalizing k vertices with
    | zero =>
      obtain rfl : k = c.vertexIntervalWidth - 1 := by omega
      rw [initVertices_succ hmin hk, if_neg (not_slotMapped_of_le (not_lt.mp hfits))] at h
      cases h
    | succ fuel ih =>
      rw [initVertices_succ hmin hk] at h
      split_ifs at h
      exact ih (by omega) h
  · induction fuel generalizing k vertices with
    | zero =>
      rw [initVertices_succ hmin hk, if_pos (slotMapped_of_lt hfits (by omega))]
      exact ⟨_, rfl⟩
    | succ fuel ih =>
      rw [initVertices_succ hmin hk, if_pos (slotMapped_of_lt hfits (by omega))]
      exact ih (by omega)

/-- In the interval that ends at `2 ^ 32` the bound of the loop wraps around to zero and no vertex
is initialised. -/
theorem initVertices_of_last (hmin : minVtxno.toNat + c.vertexIntervalWidth = 2 ^ 32) (fuel : ℕ)
    (vtxno : UInt32) : initVertices minVtxno fuel vtxno vertices = some vertices := by
  cases fuel with
  | zero => rfl
  | succ fuel =>
    rw [initVertices, if_neg]
    rw [UInt32.lt_iff_toNat_lt, UInt32.toNat_add,
      UInt32.toNat_ofNat_of_lt' c.vertexIntervalWidth_lt, hmin, Nat.mod_self]
    omega

end InitVertices

/-- The groups that exist: block numbers below `supBlkno`, with files below its group. -/
structure GroupsMade (s : FlatStorage c) : Prop where
  min_le : c.overflowBlknoMin ≤ s.superblk.supBlkno
  le_max : s.superblk.supBlkno = c.overflowBlknoMin ∨ s.superblk.supBlkno ≤ c.blknoMax
  files_lt : ∀ g, s.files g = true →
    g.toNat < (overflowGroup c s.superblk.supBlkno).toNat

theorem GroupsMade.congr {s s' : FlatStorage c} (h : GroupsMade s)
    (hsup : s'.superblk.supBlkno = s.superblk.supBlkno) (hfiles : s'.files = s.files) :
    GroupsMade s' := by
  refine ⟨?_, ?_, ?_⟩
  · rw [hsup]
    exact h.min_le
  · rw [hsup]
    exact h.le_max
  · rw [hsup, hfiles]
    exact h.files_lt

/-- The blocks of a storage are the numbers below `supBlkno`. -/
theorem GroupsMade.isBlock_iff {s : FlatStorage c} (h : GroupsMade s) (b : UInt32) :
    s.isBlock b = true ↔ b < s.superblk.supBlkno := by
  have hmin := h.min_le
  have hmax := h.le_max
  simp only [Storage.isBlock, isFlat, isOverflow, Bool.or_eq_true, Bool.and_eq_true,
    decide_eq_true_iff, UInt32.lt_iff_toNat_lt, UInt32.le_iff_toNat_le,
    ← UInt32.toNat_inj] at hmin hmax ⊢
  omega

/-- The state after a write of all vertices. -/
def Storage.setVertices (s : FlatStorage c) (vertices : Fin c.vertexIntervalWidth → Vertex) :
    FlatStorage c :=
  { s with superblk := { s.superblk with vertices := vertices } }

/-- The groups that exist after one more was made. -/
theorem GroupsMade.grow {s s' : FlatStorage c} {disk : CreateOutcome} (h : GroupsMade s)
    (hgrow : CanGrow s disk)
    (hsup : s'.superblk.supBlkno = s.superblk.supBlkno + c.overflowBlknoMask + 1)
    (hfiles : s'.files = Function.update s.files (overflowGroup c s.superblk.supBlkno) true) :
    GroupsMade s' := by
  have hnat := toNat_add_overflowBlknoMask_add_one hgrow.le_blknoMax
  have hmin := h.min_le
  have hle := hgrow.le_blknoMax
  have hpos := c.groupSize_pos
  have hgroup : (overflowGroup c s'.superblk.supBlkno).toNat =
      (overflowGroup c s.superblk.supBlkno).toNat + c.groupSize := by
    have hmod := Nat.mod_le s.superblk.supBlkno.toNat c.groupSize
    rw [toNat_overflowGroup, toNat_overflowGroup, hsup, hnat, Nat.add_mod_right]
    omega
  refine ⟨?_, Or.inr ?_, fun g hg => ?_⟩
  · rw [UInt32.le_iff_toNat_le] at hmin ⊢
    rw [hsup, hnat]
    omega
  · rw [UInt32.le_iff_toNat_le, hsup, hnat]
    exact hle
  · rw [hgroup]
    by_cases hnew : g = overflowGroup c s.superblk.supBlkno
    · rw [hnew]
      omega
    · rw [hfiles, Function.update_of_ne hnew] at hg
      exact (h.files_lt g hg).trans_le (Nat.le_add_right _ _)

/-- When no file was left behind, a group can be made as long as its numbers stay below
`BLOCKNO_MAX`. -/
theorem GroupsMade.canGrow {s : FlatStorage c} (h : GroupsMade s)
    (hmax : s.superblk.supBlkno.toNat + c.groupSize ≤ c.blknoMax.toNat) : CanGrow s .ok where
  le_supBlkno := h.min_le
  le_blknoMax := hmax
  no_file := by
    by_contra hfile
    rw [Bool.not_eq_false] at hfile
    exact lt_irrefl _ (h.files_lt _ hfile)
  disk_ok := rfl

/-- The vertices of a new superblock file. -/
def zeroVertices (c : Config) : Fin c.vertexIntervalWidth → Vertex := fun _ => ⟨0, 0, 0, 0, 0⟩

/-- **Formatting.** The blocks of the volume are free, block `0` on top. -/
theorem format_spec {minVtxno : UInt32} (h : minVtxno.toNat % c.vertexIntervalWidth = 0)
    (hvolume : c.VolumeFits) {vertices : Fin c.vertexIntervalWidth → Vertex}
    (hinit : initVertices minVtxno c.vertexIntervalWidth minVtxno (zeroVertices c) =
      some vertices) :
    ∃ s : FlatStorage c, format .allMapped minVtxno = (.ok (), s) ∧
      FreeListOf s (blknoRange 0 c.overflowBlknoMin.toNat) ∧
      s.superblk.supBlkno = c.overflowBlknoMin ∧ (∀ g, s.files g = false) ∧
      s.superblk.vertices = vertices := by
  obtain ⟨s₀, hs₀⟩ : ∃ s₀ : FlatStorage c, s₀ = { Storage.zeros .allMapped with
      superblk := ⟨0, invalidBlkno, c.overflowBlknoMin, zeroVertices c⟩ } := ⟨_, rfl⟩
  have hfree : FreeListOf s₀ [] := by
    rw [hs₀]
    exact ⟨.empty, List.nodup_nil, by simp, rfl⟩
  have hblk : ∀ b ∈ blknoRange 0 c.overflowBlknoMin.toNat, s₀.isBlock b = true := by
    intro b hb
    obtain ⟨i, hi, rfl⟩ := mem_blknoRange.mp hb
    have hlt := c.overflowBlknoMin.toNat_lt
    have hflat : UInt32.ofNat i < c.overflowBlknoMin := by
      rwa [UInt32.lt_iff_toNat_lt, UInt32.toNat_ofNat_of_lt' (show i < 2 ^ 32 by omega)]
    rw [UInt32.zero_add]
    simp [Storage.isBlock, isFlat, hflat]
  obtain ⟨s₁, hrun₁, hfree₁, hsame₁⟩ := releaseGroup_spec 0
    (Nat.le_of_lt c.overflowBlknoMin.toNat_lt) hfree hblk (by simp)
  rw [List.append_nil] at hfree₁
  have hvertices : s₁.superblk.vertices = zeroVertices c := hsame₁.vertices.trans (by rw [hs₀])
  refine ⟨s₁.setVertices vertices, ?_, hfree₁.congr rfl rfl rfl fun _ _ => rfl, ?_, ?_, rfl⟩
  · have hset : (setMinVtxno minVtxno : StorageM c AllMapped Unit).run s₁ =
        (.ok (), s₁.setVertices vertices) := by
      rw [setMinVtxno, if_neg (not_not.mpr h), Prog.run_get_bind, hvertices, hinit]
      rfl
    have hall : (formatStorage minVtxno : StorageM c AllMapped Unit).run
        (Storage.zeros .allMapped) = (do
          releaseGroup 0 c.overflowBlknoMin.toNat
          setMinVtxno minVtxno : StorageM c AllMapped Unit).run s₀ := by
      rw [formatStorage, releaseVolume_eq hvolume le_rfl, hs₀]
      rfl
    rw [format, if_neg hvolume.not_volumeSize_lt, hall, Prog.run_bind_of_ok hrun₁, hset]
  · exact hsame₁.supBlkno.trans (by rw [hs₀])
  · intro g
    exact (congrFun hsame₁.files g).trans (by rw [hs₀]; rfl)

/-- What formatting needs: an interval of vertices, a volume that is as large as its blocks, and a
superblock that is as large as what is written of it. The vertices are as the loop leaves them. -/
theorem of_format_eq_ok {M : Type} [OverflowTable M] {t : M} {minVtxno : UInt32} {s : Storage c M}
    (h : format t minVtxno = (.ok (), s)) :
    minVtxno.toNat % c.vertexIntervalWidth = 0 ∧ c.VolumeFits ∧
      initVertices minVtxno c.vertexIntervalWidth minVtxno (zeroVertices c) =
        some s.superblk.vertices := by
  rw [format] at h
  by_cases hsize : c.volumeSize < 4
  · rw [if_pos hsize] at h
    cases h
  rw [if_neg hsize] at h
  have hrun : (formatStorage minVtxno).run (Storage.zeros t) = (.ok (), s) := by
    split at h
    · cases h
    · exact h
  have hpos : 0 < c.overflowBlknoMin.toNat := by
    refine Nat.pos_of_ne_zero fun hzero => hsize ?_
    rw [UInt32.lt_iff_toNat_lt, c.toNat_volumeSize, hzero, Nat.zero_mul]
    exact Nat.zero_lt_succ 3
  obtain ⟨s₀, hs₀⟩ : ∃ s₀ : Storage c M, s₀ = { Storage.zeros t with
      superblk := ⟨0, invalidBlkno, c.overflowBlknoMin, zeroVertices c⟩ } := ⟨_, rfl⟩
  have hall : (formatStorage minVtxno).run (Storage.zeros t) =
      (releaseVolume c.overflowBlknoMin.toNat >>= fun _ => setMinVtxno minVtxno).run s₀ := by
    rw [formatStorage, hs₀]
    rfl
  rw [hall] at hrun
  have hvolume : c.VolumeFits := by
    refine ⟨hpos, by_contra fun hlt => ?_⟩
    rw [Prog.run_bind_of_error (releaseVolume_run_of_not_fits hpos hlt s₀)] at hrun
    cases hrun
  rw [releaseVolume_eq hvolume le_rfl] at hrun
  obtain ⟨_, s₁, hrelease, hset⟩ := Prog.of_bind_eq_ok hrun
  have hvertices : s₁.superblk.vertices = zeroVertices c :=
    (congrArg Prod.snd ((keeps_releaseGroup 0 _).of_run hrelease)).trans (by rw [hs₀]; rfl)
  by_cases hmod : minVtxno.toNat % c.vertexIntervalWidth ≠ 0
  · rw [setMinVtxno, if_pos hmod] at hset
    cases hset
  rw [setMinVtxno, if_neg hmod, Prog.run_get_bind, hvertices] at hset
  cases hinit : initVertices minVtxno c.vertexIntervalWidth minVtxno (zeroVertices c) with
  | none =>
    rw [hinit] at hset
    cases hset
  | some vertices =>
    rw [hinit] at hset
    obtain ⟨-, rfl⟩ := Prod.mk.inj hset
    exact ⟨not_not.mp hmod, hvolume, rfl⟩

/-- Only an interval of vertices can be formatted. -/
theorem format_eq_ok {minVtxno : UInt32} {s : FlatStorage c}
    (h : format .allMapped minVtxno = (.ok (), s)) :
    minVtxno.toNat % c.vertexIntervalWidth = 0 := (of_format_eq_ok h).1

end Nynn
