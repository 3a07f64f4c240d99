import Nynn.Storage.VertexLists

/-!
# What a call owes to the operating system

A call asks the operating system for a new overflow file, and to open and map a file again whose
group has left the table. Both requests may be refused. A call that succeeds was not refused
anything: it does what it does on a system that refuses less, and on one that refuses nothing.

Source: `nynn_mm_subgraph_storage.h`, `nynn_mm_subgraph_set.h`.

## Main definitions

* `Nynn.Storage.mapReopens`: the storage with other answers of the system.
* `Nynn.Storage.healed`: the storage on a system that opens and maps every file again.

## Main results

* `Nynn.failsOr_require`, `Nynn.ListOp.failsOr_run`: a call fails, or does what it does there.
-/

namespace Nynn

open Program

variable {c : Config} {M : Type}

/-- The storage with other answers of the system to a request to open and map a file again. -/
def Storage.mapReopens (g : Option String → Option String) (s : Storage c M) : Storage c M :=
  { s with reopens := fun n => g (s.reopens n) }

/-- The storage on a system that opens and maps every overflow file again. -/
abbrev Storage.healed (s : Storage c M) : Storage c M := s.mapReopens fun _ => none

@[simp] theorem superblk_mapReopens (g : Option String → Option String) (s : Storage c M) :
    (s.mapReopens g).superblk = s.superblk := rfl

@[simp] theorem blocks_mapReopens (g : Option String → Option String) (s : Storage c M) :
    (s.mapReopens g).blocks = s.blocks := rfl

@[simp] theorem files_mapReopens (g : Option String → Option String) (s : Storage c M) :
    (s.mapReopens g).files = s.files := rfl

theorem Storage.healed_of_reopens {s : Storage c M} (h : ∀ n, s.reopens n = none) :
    s.healed = s := by
  rw [Storage.healed, Storage.mapReopens, ← funext h]

section Answers

variable {g : Option String → Option String} {disk disk' : CreateOutcome}

/-! ### Files -/

theorem failsOr_modifySuperBlock (f : SuperBlock c → SuperBlock c) :
    FailsOr (Storage.mapReopens g) (modifySuperBlock f : StorageM c M Unit) (modifySuperBlock f) :=
  .modify fun _ => rfl

theorem failsOr_mmap (group : UInt32) :
    FailsOr (Storage.mapReopens g) (mmap group : StorageM c M Mapping) (mmap group) :=
  .get_bind fun _ => .bind (.modify fun _ => rfl) fun _ => .pure _

/-- To open a file again may be refused; `g` leaves the answer that it is not. -/
theorem failsOr_mmapFile (hg : g none = none) (path : UInt32) :
    FailsOr (Storage.mapReopens g) (mmapFile path : StorageM c M Mapping) (mmapFile path) := by
  refine .get_bind fun s => .ite (.ite (.fail _) ?_) (.fail _)
  have hanswer : (s.mapReopens g).reopens (s.mapReopens g).mmaps = g (s.reopens s.mmaps) := rfl
  rw [hanswer]
  cases s.reopens s.mmaps with
  | none => simpa only [hg] using failsOr_mmap path
  | some errno => exact fun s => Or.inl ⟨_, _, rfl⟩

/-- A new file may be refused. -/
theorem failsOr_createMmapFile (h : disk' = disk ∨ disk' = .ok)
    (path : UInt32) :
    FailsOr (Storage.mapReopens g) (createMmapFile disk path : StorageM c M Mapping)
      (createMmapFile disk' path) := by
  refine .get_bind fun s => .ite (.fail _) ?_
  cases disk with
  | ok =>
    obtain rfl : disk' = .ok := h.elim id id
    exact .bind (.modify fun _ => rfl) fun _ => failsOr_mmap path
  | openFails errno => exact .fail _
  | writeFails errno => exact fun s => Or.inl ⟨_, _, rfl⟩
  | laterCallFails errno => exact fun s => Or.inl ⟨_, _, rfl⟩

/-! ### Vertices -/

theorem failsOr_getVertex (v : UInt32) :
    FailsOr (Storage.mapReopens g) (getVertex v : StorageM c M _) (getVertex v) := by
  have hslot (slot : ℕ) : FailsOr (Storage.mapReopens g)
      (if h : slot < c.vertexIntervalWidth then pure ⟨slot, h⟩ else Prog.fail .outOfRange :
        StorageM c M (Fin c.vertexIntervalWidth))
      (if h : slot < c.vertexIntervalWidth then pure ⟨slot, h⟩ else Prog.fail .outOfRange) := by
    split_ifs
    · exact .pure _
    · exact .fail _
  exact .get_bind fun _ => hslot _

theorem failsOr_readVertex (i : Fin c.vertexIntervalWidth) :
    FailsOr (Storage.mapReopens g) (readVertex i : StorageM c M Vertex) (readVertex i) :=
  .get_bind fun _ => .pure _

theorem failsOr_modifyVertex (i : Fin c.vertexIntervalWidth) (f : Vertex → Vertex) :
    FailsOr (Storage.mapReopens g) (modifyVertex i f : StorageM c M Unit) (modifyVertex i f) :=
  failsOr_modifySuperBlock _

/-! ### Blocks -/

section Blocks

variable [OverflowTable M]

theorem failsOr_getBlock (hg : g none = none) (b : UInt32) :
    FailsOr (Storage.mapReopens g) (getBlock b : StorageM c M (Option Ptr)) (getBlock b) := by
  refine .ite (.pure _) (.get_bind fun s => .ite ?_ (.pure _))
  refine .bind (.bind (.get_bind fun s => .bind (.modify fun _ => rfl) fun _ => .pure _)
    fun m => ?_) fun m => .pure _
  cases m with
  | some m => exact .pure _
  | none =>
    exact .bind (.ite (.pure _) (.fail _)) fun path => .bind (failsOr_mmapFile hg path) fun m =>
      .bind (.modify fun _ => rfl) fun _ => .pure _

theorem failsOr_deref (p : Option Ptr) :
    FailsOr (Storage.mapReopens g) (deref p : StorageM c M (Block c.blockSz)) (deref p) := by
  cases p with
  | none => exact .fail _
  | some p => exact .get_bind fun s => .ite (.pure _) (.fail _)

theorem failsOr_assign (p : Option Ptr) (blk : Block c.blockSz) :
    FailsOr (Storage.mapReopens g) (assign p blk : StorageM c M Unit) (assign p blk) := by
  cases p with
  | none => exact .fail _
  | some p => exact .get_bind fun s => .ite (.modify fun _ => rfl) (.fail _)

theorem failsOr_modifyBlock (p : Option Ptr) (f : Block c.blockSz → Block c.blockSz) :
    FailsOr (Storage.mapReopens g) (modifyBlock p f : StorageM c M Unit) (modifyBlock p f) :=
  .bind (failsOr_deref p) fun _ => failsOr_assign p _

theorem failsOr_pushIndex (p : Option Ptr) (b : UInt32) :
    FailsOr (Storage.mapReopens g) (pushIndex p b : StorageM c M Unit) (pushIndex p b) := by
  refine .bind (failsOr_deref p) fun blk => ?_
  cases blk.pushIndex b with
  | none => exact .fail _
  | some blk' => exact failsOr_assign p blk'

theorem failsOr_popIndex (p : Option Ptr) :
    FailsOr (Storage.mapReopens g) (popIndex p : StorageM c M UInt32) (popIndex p) := by
  refine .bind (failsOr_deref p) fun blk => ?_
  cases blk.popIndex with
  | none => exact .fail _
  | some r => exact .bind (failsOr_assign p r.2) fun _ => .pure _

theorem failsOr_readBlock (hg : g none = none) (b : UInt32) :
    FailsOr (Storage.mapReopens g) (readBlock b : StorageM c M (Block c.blockSz))
      (readBlock b) := by
  refine .bind (failsOr_getBlock hg b) fun p => ?_
  cases p with
  | none => exact .fail _
  | some p => exact failsOr_deref (some p)

theorem failsOr_writeBlock (hg : g none = none) (b : UInt32) (blk : Block c.blockSz) :
    FailsOr (Storage.mapReopens g) (writeBlock b blk : StorageM c M Unit) (writeBlock b blk) := by
  refine .bind (failsOr_getBlock hg b) fun p => ?_
  cases p with
  | none => exact .fail _
  | some p => exact failsOr_assign (some p) blk

/-! ### The free list -/

theorem failsOr_release (hg : g none = none) (b : UInt32) :
    FailsOr (Storage.mapReopens g) (release b : StorageM c M Unit) (release b) := by
  refine .get_bind fun s => .bind (failsOr_getBlock hg b) fun p => ?_
  cases p with
  | none => exact .fail _
  | some p =>
    have hpush : ∀ newHead : Bool, FailsOr (Storage.mapReopens g)
        (if newHead = true then do
          modifyBlock (some p) Block.initIndexBlock
          pushIndex (some p) s.superblk.headBlkno
          setHeadBlkno b
          incNumberOfFreeBlks
        else do
          let headBlk ← getBlock s.superblk.headBlkno
          pushIndex headBlk b
          incNumberOfFreeBlks : StorageM c M Unit)
        (if newHead = true then do
          modifyBlock (some p) Block.initIndexBlock
          pushIndex (some p) s.superblk.headBlkno
          setHeadBlkno b
          incNumberOfFreeBlks
        else do
          let headBlk ← getBlock s.superblk.headBlkno
          pushIndex headBlk b
          incNumberOfFreeBlks) := fun newHead =>
      .ite
        (.bind (failsOr_modifyBlock _ _) fun _ => .bind (failsOr_pushIndex _ _) fun _ =>
          .bind (failsOr_modifySuperBlock _) fun _ => failsOr_modifySuperBlock _)
        (.bind (failsOr_getBlock hg _) fun q => .bind (failsOr_pushIndex q _) fun _ =>
          failsOr_modifySuperBlock _)
    exact .ite (hpush true) (.bind (failsOr_getBlock hg _) fun q =>
      .bind (failsOr_deref q) fun blk => hpush blk.isAtTop)

theorem failsOr_releaseGroup (hg : g none = none) (sup : UInt32) (n : ℕ) :
    FailsOr (Storage.mapReopens g) (releaseGroup sup n : StorageM c M Unit)
      (releaseGroup sup n) := by
  induction n with
  | zero => exact .pure _
  | succ n ih => exact .bind (failsOr_release hg _) fun _ => ih

theorem failsOr_requireAllocated (hg : g none = none) :
    FailsOr (Storage.mapReopens g) (requireAllocated : StorageM c M UInt32) requireAllocated :=
  .get_bind fun _ => .ite (.pure _) (.bind (failsOr_modifySuperBlock _) fun _ =>
    .bind (failsOr_getBlock hg _) fun p => .bind (failsOr_deref p) fun _ => .ite
      (.bind (failsOr_getBlock hg _) fun q => .bind (failsOr_popIndex q) fun _ =>
        .bind (failsOr_modifySuperBlock _) fun _ => .pure _)
      (failsOr_popIndex p))

/-- A require fails or does what it does where no request is refused. -/
theorem failsOr_require (hg : g none = none) (h : disk' = disk ∨ disk' = .ok) :
    FailsOr (Storage.mapReopens g) (require disk : StorageM c M UInt32) (require disk') := by
  refine .bind (failsOr_requireAllocated hg) fun blkno => .ite ?_ (.pure _)
  exact .get_bind fun s => .bind (.ite (.pure _) (.fail _)) fun path =>
    .bind (failsOr_createMmapFile h path) fun m => .bind (.modify fun _ => rfl) fun _ =>
      .bind (failsOr_modifySuperBlock _) fun _ => .bind (failsOr_releaseGroup hg _ _) fun _ =>
        failsOr_requireAllocated hg

/-! ### The lists of blocks -/

/-- The last steps of an insertion. -/
private theorem failsOr_finish (hg : g none = none) (b : UInt32) (blk : Block c.blockSz) :
    FailsOr (Storage.mapReopens g) (do writeBlock b blk; pure b : StorageM c M UInt32)
      (do writeBlock b blk; pure b) :=
  .bind (failsOr_writeBlock hg b blk) fun _ => .pure _

theorem failsOr_push (hg : g none = none) (h : disk' = disk ∨ disk' = .ok) (v : UInt32)
    (blk : Block c.blockSz) :
    FailsOr (Storage.mapReopens g) (push disk v blk : StorageM c M UInt32)
      (push disk' v blk) :=
  .bind (failsOr_getVertex v) fun i => .bind (failsOr_modifyVertex i _) fun _ =>
    .bind (failsOr_require hg h) fun b => .ite (.pure _) (.bind (failsOr_readVertex i) fun _ => .ite
      (.bind (failsOr_getBlock hg _) fun p => .bind (failsOr_modifyVertex i _) fun _ =>
        .bind (failsOr_modifyBlock p _) fun _ => failsOr_finish hg b _)
      (.bind (failsOr_modifyVertex i _) fun _ => .bind (failsOr_modifyVertex i _) fun _ =>
        failsOr_finish hg b _))

theorem failsOr_unshift (hg : g none = none) (h : disk' = disk ∨ disk' = .ok) (v : UInt32)
    (blk : Block c.blockSz) :
    FailsOr (Storage.mapReopens g) (unshift disk v blk : StorageM c M UInt32)
      (unshift disk' v blk) :=
  .bind (failsOr_getVertex v) fun i => .bind (failsOr_modifyVertex i _) fun _ =>
    .bind (failsOr_require hg h) fun b => .ite (.pure _) (.bind (failsOr_readVertex i) fun _ => .ite
      (.bind (failsOr_getBlock hg _) fun p => .bind (failsOr_modifyVertex i _) fun _ =>
        .bind (failsOr_modifyBlock p _) fun _ => failsOr_finish hg b _)
      (.bind (failsOr_modifyVertex i _) fun _ => .bind (failsOr_modifyVertex i _) fun _ =>
        failsOr_finish hg b _))

theorem failsOr_insertPrev (hg : g none = none) (h : disk' = disk ∨ disk' = .ok) (v next : UInt32)
    (blk : Block c.blockSz) :
    FailsOr (Storage.mapReopens g) (insertPrev disk v next blk : StorageM c M UInt32)
      (insertPrev disk' v next blk) :=
  .bind (failsOr_getVertex v) fun i => .bind (failsOr_readVertex i) fun _ =>
    .ite (failsOr_unshift hg h v blk) (.ite (failsOr_push hg h v blk)
      (.bind (failsOr_require hg h) fun b => .ite (.pure _)
        (.bind (failsOr_modifyVertex i _) fun _ => .bind (failsOr_getBlock hg _) fun p =>
          .bind (failsOr_deref p) fun _ => .bind (failsOr_modifyBlock p _) fun _ =>
            .bind (failsOr_getBlock hg _) fun q => .bind (failsOr_modifyBlock q _) fun _ =>
              failsOr_finish hg b _)))

theorem failsOr_insertNext (hg : g none = none) (h : disk' = disk ∨ disk' = .ok) (v prev : UInt32)
    (blk : Block c.blockSz) :
    FailsOr (Storage.mapReopens g) (insertNext disk v prev blk : StorageM c M UInt32)
      (insertNext disk' v prev blk) :=
  .bind (failsOr_getVertex v) fun i => .bind (failsOr_readVertex i) fun _ =>
    .ite (failsOr_push hg h v blk) (.ite (failsOr_unshift hg h v blk)
      (.bind (failsOr_require hg h) fun b => .ite (.pure _)
        (.bind (failsOr_modifyVertex i _) fun _ => .bind (failsOr_getBlock hg _) fun p =>
          .bind (failsOr_deref p) fun _ => .bind (failsOr_modifyBlock p _) fun _ =>
            .bind (failsOr_getBlock hg _) fun q => .bind (failsOr_modifyBlock q _) fun _ =>
              failsOr_finish hg b _)))

theorem failsOr_pop (hg : g none = none) (v : UInt32) :
    FailsOr (Storage.mapReopens g) (pop v : StorageM c M Unit) (pop v) :=
  .bind (failsOr_getVertex v) fun i => .bind (failsOr_readVertex i) fun _ => .ite (.pure _)
    (.bind (failsOr_getBlock hg _) fun p => .bind (failsOr_deref p) fun _ =>
      .bind (failsOr_modifyVertex i _) fun _ => .ite
        (.bind (failsOr_getBlock hg _) fun q => .bind (failsOr_modifyVertex i _) fun _ =>
          .bind (failsOr_modifyBlock q _) fun _ => failsOr_release hg _)
        (.bind (failsOr_modifyVertex i _) fun _ => .bind (failsOr_modifyVertex i _) fun _ =>
          failsOr_release hg _))

theorem failsOr_shift (hg : g none = none) (v : UInt32) :
    FailsOr (Storage.mapReopens g) (shift v : StorageM c M Unit) (shift v) :=
  .bind (failsOr_getVertex v) fun i => .bind (failsOr_readVertex i) fun _ => .ite (.pure _)
    (.bind (failsOr_getBlock hg _) fun p => .bind (failsOr_deref p) fun _ =>
      .bind (failsOr_modifyVertex i _) fun _ => .ite
        (.bind (failsOr_getBlock hg _) fun q => .bind (failsOr_modifyVertex i _) fun _ =>
          .bind (failsOr_modifyBlock q _) fun _ => failsOr_release hg _)
        (.bind (failsOr_modifyVertex i _) fun _ => .bind (failsOr_modifyVertex i _) fun _ =>
          failsOr_release hg _))

theorem failsOr_remove (hg : g none = none) (v b : UInt32) :
    FailsOr (Storage.mapReopens g) (remove v b : StorageM c M Unit) (remove v b) :=
  .bind (failsOr_getVertex v) fun i => .bind (failsOr_readVertex i) fun _ => .ite (.pure _)
    (.ite (failsOr_shift hg v) (.ite (failsOr_pop hg v)
      (.bind (failsOr_getBlock hg _) fun p => .bind (failsOr_deref p) fun _ =>
        .bind (failsOr_modifyVertex i _) fun _ => .bind (failsOr_getBlock hg _) fun q =>
          .bind (failsOr_modifyBlock q _) fun _ => .bind (failsOr_getBlock hg _) fun q' =>
            .bind (failsOr_modifyBlock q' _) fun _ => failsOr_release hg _)))

/-- **An update of a list** fails or does what it does where no request is refused. -/
theorem ListOp.failsOr_run (hg : g none = none) (h : disk' = disk ∨ disk' = .ok)
    (op : ListOp c.blockSz) :
    FailsOr (Storage.mapReopens g) (op.run disk : StorageM c M (Option UInt32)) (op.run disk') := by
  cases op with
  | push v blk => exact .bind (failsOr_push hg h v blk) fun _ => .pure _
  | unshift v blk => exact .bind (failsOr_unshift hg h v blk) fun _ => .pure _
  | insertPrev v next blk => exact .bind (failsOr_insertPrev hg h v next blk) fun _ => .pure _
  | insertNext v prev blk => exact .bind (failsOr_insertNext hg h v prev blk) fun _ => .pure _
  | pop v => exact .bind (failsOr_pop hg v) fun _ => .pure _
  | shift v => exact .bind (failsOr_shift hg v) fun _ => .pure _
  | remove v b => exact .bind (failsOr_remove hg v b) fun _ => .pure _

end Blocks

end Answers

/-- What an update that succeeds does on a system that refuses nothing. -/
theorem ListOp.run_healed [OverflowTable M] {op : ListOp c.blockSz} {disk : CreateOutcome}
    {s s' : Storage c M} {r : Option UInt32} (h : (op.run disk).run s = (.ok r, s')) :
    (op.run .ok).run s.healed = (.ok r, s'.healed) :=
  (ListOp.failsOr_run rfl (Or.inr rfl) op).of_ok h

end Nynn
