import Nynn.Storage.VertexLists

/-!
# The store in which every block stays mapped

With the table `Nynn.AllMapped` a pointer to a block is as good as the number of the block:
`getBlock` is access to a map from block numbers to bytes. This file evaluates the programs of the
storage in terms of that map.

## Main definitions

* `Nynn.FlatStorage`: a storage with every block mapped.
* `Nynn.Storage.isBlock`: the block numbers for which `getBlock` returns a pointer.
* `Nynn.Storage.setBlock`, `Nynn.Storage.setVertex`: the state after one write.

## Main results

* `Nynn.getBlock_of_isBlock`, `Nynn.readBlock_of_isBlock`, `Nynn.writeBlock_of_isBlock`.
-/

namespace Nynn

open Program

variable {c : Config}

/-- A storage in which every block stays mapped. -/
abbrev FlatStorage (c : Config) := Storage c AllMapped

/-! ### Groups of numbers -/

/-- A number is its part outside a mask plus its part inside. -/
theorem and_not_add_and (x m : UInt32) : (x &&& ~~~m) + (x &&& m) = x := by
  apply UInt32.toBitVec_inj.mp
  rw [UInt32.toBitVec_add, UInt32.toBitVec_and, UInt32.toBitVec_and, UInt32.toBitVec_not,
    BitVec.add_eq_or_of_and_eq_zero]
  · ext i hi
    simp only [BitVec.getElem_or, BitVec.getElem_and, BitVec.getElem_not]
    cases x.toBitVec[i] <;> cases m.toBitVec[i] <;> rfl
  · ext i hi
    simp only [BitVec.getElem_and, BitVec.getElem_not, BitVec.getElem_zero]
    cases x.toBitVec[i] <;> cases m.toBitVec[i] <;> rfl

/-- Masking the low bits away rounds down to a multiple of a power of two. -/
theorem toNat_and_not_of_mask {m : UInt32} {k : ℕ} (hm : m.toNat = 2 ^ k - 1) (x : UInt32) :
    (x &&& ~~~m).toNat = x.toNat - x.toNat % 2 ^ k := by
  have hadd := congrArg UInt32.toNat (and_not_add_and x m)
  have hle : (x &&& ~~~m).toNat ≤ x.toNat := by
    rw [UInt32.toNat_and]
    exact Nat.and_le_left
  have hmod := Nat.mod_le x.toNat (2 ^ k)
  have hlt := x.toNat_lt
  have hlow : (x &&& m).toNat = x.toNat % 2 ^ k := by
    rw [UInt32.toNat_and, hm, Nat.and_two_pow_sub_one_eq_mod]
  rw [UInt32.toNat_add, hlow] at hadd
  omega

/-- A block number is the first number of its group plus its place in the group. -/
theorem overflowGroup_add (blkno : UInt32) :
    overflowGroup c blkno + (blkno &&& c.overflowBlknoMask) = blkno := and_not_add_and _ _

theorem toNat_overflowGroup (blkno : UInt32) :
    (overflowGroup c blkno).toNat = blkno.toNat - blkno.toNat % c.groupSize :=
  toNat_and_not_of_mask c.toNat_overflowBlknoMask blkno

/-! ### Pointers -/

/-- The block numbers for which `getBlock` returns a pointer. -/
def Storage.isBlock {M : Type} (s : Storage c M) (blkno : UInt32) : Bool :=
  isFlat c blkno || (isOverflow c blkno && blkno < s.superblk.supBlkno)

/-- The pointer to a block of the store in which every block stays mapped. -/
def blockPtr (c : Config) (blkno : UInt32) : Ptr :=
  if isFlat c blkno then .volume blkno
  else .overflow ⟨0, overflowGroup c blkno⟩ (blkno &&& c.overflowBlknoMask)

@[simp] theorem blkno_blockPtr (blkno : UInt32) : (blockPtr c blkno).blkno = blkno := by
  rw [blockPtr]
  split_ifs
  · rfl
  · exact overflowGroup_add blkno

/-- `INVALID_BLOCKNO` is the number of no block. -/
theorem isBlock_invalidBlkno {M : Type} (s : Storage c M) : s.isBlock invalidBlkno = false := by
  have hmin : ¬invalidBlkno < c.overflowBlknoMin := by
    rw [UInt32.lt_iff_toNat_lt]
    have := c.overflowBlknoMin.toNat_lt
    have : invalidBlkno.toNat = 2 ^ 32 - 1 := rfl
    omega
  have hmax : ¬invalidBlkno < c.blknoMax := by
    rw [UInt32.lt_iff_toNat_lt]
    have := c.blknoMax.toNat_lt
    have : invalidBlkno.toNat = 2 ^ 32 - 1 := rfl
    omega
  simp [Storage.isBlock, isFlat, isOverflow, hmin, hmax]

theorem ne_invalidBlkno_of_isBlock {M : Type} {s : Storage c M} {blkno : UInt32}
    (h : s.isBlock blkno = true) : blkno ≠ invalidBlkno := by
  rintro rfl
  rw [isBlock_invalidBlkno] at h
  exact Bool.false_ne_true h

theorem getBlock_of_isBlock {s : FlatStorage c} {blkno : UInt32} (h : s.isBlock blkno = true) :
    (getBlock blkno).run s = (.ok (some (blockPtr c blkno)), s) := by
  rw [getBlock, blockPtr]
  by_cases hflat : isFlat c blkno = true
  · simp only [hflat, if_true, Prog.run_pure]
  · have hover : (isOverflow c blkno && decide (blkno < s.superblk.supBlkno)) = true := by
      simpa [Storage.isBlock, hflat] using h
    simp only [hflat, Bool.false_eq_true, if_false, Prog.run_get_bind, hover, if_true]
    rfl

theorem getBlock_of_not_isBlock {M : Type} [OverflowTable M] {s : Storage c M} {blkno : UInt32}
    (h : s.isBlock blkno = false) : (getBlock blkno).run s = (.ok none, s) := by
  have hflat : isFlat c blkno = false := (Bool.or_eq_false_iff.mp h).1
  have hover : (isOverflow c blkno && decide (blkno < s.superblk.supBlkno)) = false :=
    (Bool.or_eq_false_iff.mp h).2
  rw [getBlock]
  simp only [hflat, Bool.false_eq_true, if_false, Prog.run_get_bind, hover, Prog.run_pure]

/-! ### Writes -/

/-- The state after a write of a block. -/
def Storage.setBlock {M : Type} (s : Storage c M) (blkno : UInt32) (blk : Block c.blockSz) :
    Storage c M :=
  { s with blocks := Function.update s.blocks blkno blk }

/-- The state after a change of a vertex. -/
def Storage.setVertex {M : Type} (s : Storage c M) (vtx : Fin c.vertexIntervalWidth)
    (v : Vertex) : Storage c M :=
  { s with superblk := { s.superblk with vertices := Function.update s.superblk.vertices vtx v } }

section Projections

variable {M : Type} (s : Storage c M)

@[simp] theorem superblk_setBlock (blkno : UInt32) (blk : Block c.blockSz) :
    (s.setBlock blkno blk).superblk = s.superblk := rfl

@[simp] theorem blocks_setBlock (blkno : UInt32) (blk : Block c.blockSz) :
    (s.setBlock blkno blk).blocks = Function.update s.blocks blkno blk := rfl

@[simp] theorem files_setBlock (blkno : UInt32) (blk : Block c.blockSz) :
    (s.setBlock blkno blk).files = s.files := rfl

@[simp] theorem isBlock_setBlock (blkno : UInt32) (blk : Block c.blockSz) :
    (s.setBlock blkno blk).isBlock = s.isBlock := rfl

@[simp] theorem blocks_setVertex (vtx : Fin c.vertexIntervalWidth) (v : Vertex) :
    (s.setVertex vtx v).blocks = s.blocks := rfl

@[simp] theorem files_setVertex (vtx : Fin c.vertexIntervalWidth) (v : Vertex) :
    (s.setVertex vtx v).files = s.files := rfl

@[simp] theorem isBlock_setVertex (vtx : Fin c.vertexIntervalWidth) (v : Vertex) :
    (s.setVertex vtx v).isBlock = s.isBlock := rfl

@[simp] theorem vertices_setVertex (vtx : Fin c.vertexIntervalWidth) (v : Vertex) :
    (s.setVertex vtx v).superblk.vertices = Function.update s.superblk.vertices vtx v := rfl

@[simp] theorem headBlkno_setVertex (vtx : Fin c.vertexIntervalWidth) (v : Vertex) :
    (s.setVertex vtx v).superblk.headBlkno = s.superblk.headBlkno := rfl

@[simp] theorem supBlkno_setVertex (vtx : Fin c.vertexIntervalWidth) (v : Vertex) :
    (s.setVertex vtx v).superblk.supBlkno = s.superblk.supBlkno := rfl

@[simp] theorem numOfFreeBlks_setVertex (vtx : Fin c.vertexIntervalWidth) (v : Vertex) :
    (s.setVertex vtx v).superblk.numOfFreeBlks = s.superblk.numOfFreeBlks := rfl

theorem readVertex_apply (vtx : Fin c.vertexIntervalWidth) :
    (readVertex vtx).run s = (.ok (s.superblk.vertices vtx), s) := rfl

theorem modifyVertex_apply (vtx : Fin c.vertexIntervalWidth) (f : Vertex → Vertex) :
    (modifyVertex vtx f).run s = (.ok (), s.setVertex vtx (f (s.superblk.vertices vtx))) := rfl

end Projections

theorem deref_blockPtr (s : FlatStorage c) (blkno : UInt32) :
    (deref (some (blockPtr c blkno))).run s = (.ok (s.blocks blkno), s) := by
  have husable : s.isUsable (blockPtr c blkno) = true := by
    rw [blockPtr]
    split_ifs <;> rfl
  simp [deref, husable]

theorem assign_blockPtr (s : FlatStorage c) (blkno : UInt32) (blk : Block c.blockSz) :
    (assign (some (blockPtr c blkno)) blk).run s = (.ok (), s.setBlock blkno blk) := by
  have husable : s.isUsable (blockPtr c blkno) = true := by
    rw [blockPtr]
    split_ifs <;> rfl
  simp [assign, husable, Storage.setBlock]

theorem modifyBlock_blockPtr (s : FlatStorage c) (blkno : UInt32)
    (f : Block c.blockSz → Block c.blockSz) :
    (modifyBlock (some (blockPtr c blkno)) f).run s =
      (.ok (), s.setBlock blkno (f (s.blocks blkno))) := by
  rw [modifyBlock, Prog.run_bind_of_ok (deref_blockPtr s blkno), assign_blockPtr]

theorem readBlock_of_isBlock {s : FlatStorage c} {blkno : UInt32}
    (h : s.isBlock blkno = true) : (readBlock blkno).run s = (.ok (s.blocks blkno), s) := by
  rw [readBlock, Prog.run_bind_of_ok (getBlock_of_isBlock h)]
  exact deref_blockPtr s blkno

theorem writeBlock_of_isBlock {s : FlatStorage c} {blkno : UInt32} (blk : Block c.blockSz)
    (h : s.isBlock blkno = true) :
    (writeBlock blkno blk).run s = (.ok (), s.setBlock blkno blk) := by
  rw [writeBlock, Prog.run_bind_of_ok (getBlock_of_isBlock h)]
  exact assign_blockPtr s blkno blk

theorem pushIndex_blockPtr {s : FlatStorage c} {at_ blkno : UInt32} {blk : Block c.blockSz}
    (h : (s.blocks at_).pushIndex blkno = some blk) :
    (pushIndex (some (blockPtr c at_)) blkno).run s = (.ok (), s.setBlock at_ blk) := by
  rw [pushIndex, Prog.run_bind_of_ok (deref_blockPtr s at_)]
  simp only [h]
  exact assign_blockPtr s at_ blk

theorem popIndex_blockPtr {s : FlatStorage c} {at_ blkno : UInt32} {blk : Block c.blockSz}
    (h : (s.blocks at_).popIndex = some (blkno, blk)) :
    (popIndex (some (blockPtr c at_))).run s = (.ok blkno, s.setBlock at_ blk) := by
  rw [popIndex, Prog.run_bind_of_ok (deref_blockPtr s at_)]
  simp only [h]
  rw [Prog.run_bind_of_ok (assign_blockPtr s at_ blk)]
  rfl

end Nynn
