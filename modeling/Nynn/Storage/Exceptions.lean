import Nynn.Storage.FlatStore

/-!
# Removals throw no exception

The removals fail without an exception or not at all, in the store in which every block stays
mapped: they follow null pointers and write behind a block rather than throw. Only `getBlock` and
`release` can throw, the first when an overflow file cannot be mapped again, the second on a number
of no block.

Source: `nynn_mm_subgraph_set.h`, `nynn_mm_subgraph_storage.h`.

## Main definitions

* `Nynn.Fault.NotException`: a fault that is no exception.
* `Nynn.Storage.GetsBlocks`: `getBlock` throws no exception.

## Main results

* `Nynn.FlatStorage.getsBlocks`: in the store in which every block stays mapped it is so.
* `Nynn.triple_pop`, `Nynn.triple_shift`, `Nynn.triple_remove`: a removal throws no exception.
-/

namespace Nynn

open Program

variable {c : Config} {M : Type}

/-- The blocks and the files are those of `s₀`. -/
def SameFiles (s₀ s : Storage c M) : Prop :=
  s.superblk.supBlkno = s₀.superblk.supBlkno ∧ s.files = s₀.files ∧ s.emptyFiles = s₀.emptyFiles

/-- The failure is not an exception. -/
def Fault.NotException : Fault → Prop
  | exception _ => False
  | _ => True

section Removals

variable {s₀ : Storage c M}

theorem triple_getVertex (v : UInt32) :
    Triple (SameFiles s₀) (getVertex v : StorageM c M _) (fun _ => SameFiles s₀)
      Fault.NotException := by
  refine .get_bind fun s hs => ?_
  by_cases hslot : vertexSlot s.superblk.getMinVtxno v < c.vertexIntervalWidth
  · simp only [dif_pos hslot]
    exact .pure fun s' e => e ▸ hs
  · simp only [dif_neg hslot]
    exact .fail trivial

theorem triple_readVertex (i : Fin c.vertexIntervalWidth) :
    Triple (SameFiles s₀) (readVertex i : StorageM c M _) (fun _ => SameFiles s₀)
      Fault.NotException :=
  .get_bind fun _ hs => .pure fun _ e => e ▸ hs

theorem triple_modifyVertex (i : Fin c.vertexIntervalWidth) (f : Vertex → Vertex) :
    Triple (SameFiles s₀) (modifyVertex i f : StorageM c M _) (fun _ => SameFiles s₀)
      Fault.NotException :=
  .modify fun _ hs => hs

variable [OverflowTable M]

theorem triple_deref (p : Option Ptr) :
    Triple (SameFiles s₀) (deref p : StorageM c M _) (fun _ s => SameFiles s₀ s ∧ p.isSome = true)
      Fault.NotException := by
  cases p with
  | none => exact .fail trivial
  | some p =>
    exact .get_bind fun s hs => .ite (fun _ => .pure fun s' e => ⟨e ▸ hs, rfl⟩)
      fun _ => .fail trivial

theorem triple_assign (p : Option Ptr) (blk : Block c.blockSz) :
    Triple (SameFiles s₀) (assign p blk : StorageM c M _) (fun _ => SameFiles s₀)
      Fault.NotException := by
  cases p with
  | none => exact .fail trivial
  | some p =>
    exact .get_bind fun s hs => .ite (fun _ => .modify fun s' e => e ▸ hs) fun _ => .fail trivial

theorem triple_modifyBlock (p : Option Ptr) (f : Block c.blockSz → Block c.blockSz) :
    Triple (SameFiles s₀) (modifyBlock p f : StorageM c M _) (fun _ => SameFiles s₀)
      Fault.NotException :=
  .bind (triple_deref p) fun _ => (triple_assign p _).mono (fun _ hs => hs.1) fun _ _ => id

theorem triple_pushIndex (p : Option Ptr) (blkno : UInt32) :
    Triple (SameFiles s₀) (pushIndex p blkno : StorageM c M _) (fun _ => SameFiles s₀)
      Fault.NotException := by
  refine .bind (triple_deref p) fun blk => ?_
  cases blk.pushIndex blkno with
  | none => exact .fail trivial
  | some blk' => exact (triple_assign p blk').mono (fun _ hs => hs.1) fun _ _ => id

/-- `getBlock` throws no exception, and a pointer is null just when the block is none. -/
def Storage.GetsBlocks (s₀ : Storage c M) : Prop :=
  ∀ b, Triple (SameFiles s₀) (getBlock b : StorageM c M _)
    (fun p s => SameFiles s₀ s ∧ p.isSome = s₀.isBlock b) Fault.NotException

/-- In the store in which every block stays mapped, whatever files it has. -/
theorem FlatStorage.getsBlocks (s₀ : FlatStorage c) : s₀.GetsBlocks := by
  intro b s hs
  have hblk : s.isBlock b = s₀.isBlock b := by
    rw [Storage.isBlock, Storage.isBlock, hs.1]
  rw [← hblk]
  cases hb : s.isBlock b with
  | true => exact Or.inl ⟨_, s, getBlock_of_isBlock hb, hs, rfl⟩
  | false => exact Or.inl ⟨_, s, getBlock_of_not_isBlock hb, hs, rfl⟩

/-- A release of a block throws no exception. -/
theorem triple_release (hget : s₀.GetsBlocks) {b : UInt32} (hb : s₀.isBlock b = true) :
    Triple (SameFiles s₀) (release b : StorageM c M Unit) (fun _ => SameFiles s₀)
      Fault.NotException := by
  refine .get_bind fun s hs => .bind ((hget b).mono (fun _ e => e ▸ hs)
    fun _ _ => id) fun p => ?_
  rw [hb]
  cases p with
  | none => exact .of_forall (fun _ hs => hs.2) nofun
  | some p =>
    have hinc : Triple (SameFiles s₀) (incNumberOfFreeBlks : StorageM c M Unit)
        (fun _ => SameFiles s₀) Fault.NotException := .modify fun _ hs => hs
    have hpush : ∀ newHead : Bool, Triple (SameFiles s₀)
        (if newHead = true then do
          modifyBlock (some p) Block.initIndexBlock
          pushIndex (some p) s.superblk.headBlkno
          setHeadBlkno b
          incNumberOfFreeBlks
        else do
          let headBlk ← getBlock s.superblk.headBlkno
          pushIndex headBlk b
          incNumberOfFreeBlks : StorageM c M Unit) (fun _ => SameFiles s₀) Fault.NotException :=
      fun newHead => .ite
        (fun _ => .bind (triple_modifyBlock _ _) fun _ => .bind (triple_pushIndex _ _) fun _ =>
          .bind (.modify (Q := fun _ => SameFiles s₀) fun _ hs => hs) fun _ => hinc)
        fun _ => .bind ((hget _).mono (fun _ => id) fun _ _ hs => hs.1) fun q =>
          .bind (triple_pushIndex q _) fun _ => hinc
    refine .mono (.ite (fun _ => hpush true) fun _ => ?_) (fun _ hs => hs.1) fun _ _ => id
    exact .bind ((hget _).mono (fun _ => id) fun _ _ hs => hs.1) fun q =>
      .bind ((triple_deref q).mono (fun _ => id) fun _ _ hs => hs.1) fun blk => hpush blk.isAtTop

/-- The block whose contents a removal reads is a block. -/
private theorem triple_getBlock_deref {α : Type} {f : Option Ptr → Block c.blockSz → StorageM c M α}
    (hget : s₀.GetsBlocks) (b : UInt32)
    (hf : ∀ p blk, s₀.isBlock b = true → Triple (SameFiles s₀) (f p blk) (fun _ => SameFiles s₀)
      Fault.NotException) :
    Triple (SameFiles s₀) (do let p ← getBlock b; let blk ← deref p; f p blk)
      (fun _ => SameFiles s₀) Fault.NotException := by
  refine .bind (hget b) fun p => ?_
  refine .of_forall (fun _ hs => hs.2) fun hp => ?_
  refine .bind ((triple_deref p).mono (fun _ hs => hs.1) fun _ _ => id) fun blk => ?_
  refine .of_forall (fun _ hs => hs.2) fun hsome => ?_
  exact (hf p blk (hp.symm.trans hsome)).mono (fun _ hs => hs.1) fun _ _ => id

/-- **A removal throws no exception.** -/
theorem triple_pop (hget : s₀.GetsBlocks) (v : UInt32) :
    Triple (SameFiles s₀) (pop v : StorageM c M Unit) (fun _ => SameFiles s₀)
      Fault.NotException := by
  refine .bind (triple_getVertex v) fun i => .bind (triple_readVertex i) fun vtx =>
    .ite (fun _ => .pure fun _ => id) fun _ => ?_
  refine triple_getBlock_deref hget vtx.tailBlkno fun p blk hb => ?_
  refine .bind (triple_modifyVertex i _) fun _ => .ite (fun _ => ?_) fun _ => ?_
  · exact .bind (hget _) fun q => .bind
      ((triple_modifyVertex i _).mono (fun _ hs => hs.1) fun _ _ => id) fun _ =>
      .bind (triple_modifyBlock q _) fun _ => triple_release hget hb
  · exact .bind (triple_modifyVertex i _) fun _ => .bind (triple_modifyVertex i _) fun _ =>
      triple_release hget hb

theorem triple_shift (hget : s₀.GetsBlocks) (v : UInt32) :
    Triple (SameFiles s₀) (shift v : StorageM c M Unit) (fun _ => SameFiles s₀)
      Fault.NotException := by
  refine .bind (triple_getVertex v) fun i => .bind (triple_readVertex i) fun vtx =>
    .ite (fun _ => .pure fun _ => id) fun _ => ?_
  refine triple_getBlock_deref hget vtx.headBlkno fun p blk hb => ?_
  refine .bind (triple_modifyVertex i _) fun _ => .ite (fun _ => ?_) fun _ => ?_
  · exact .bind (hget _) fun q => .bind
      ((triple_modifyVertex i _).mono (fun _ hs => hs.1) fun _ _ => id) fun _ =>
      .bind (triple_modifyBlock q _) fun _ => triple_release hget hb
  · exact .bind (triple_modifyVertex i _) fun _ => .bind (triple_modifyVertex i _) fun _ =>
      triple_release hget hb

theorem triple_remove (hget : s₀.GetsBlocks) (v b : UInt32) :
    Triple (SameFiles s₀) (remove v b : StorageM c M Unit) (fun _ => SameFiles s₀)
      Fault.NotException := by
  refine .bind (triple_getVertex v) fun i => .bind (triple_readVertex i) fun vtx =>
    .ite (fun _ => .pure fun _ => id) fun _ => .ite (fun _ => triple_shift hget v) fun _ =>
    .ite (fun _ => triple_pop hget v) fun _ => ?_
  refine triple_getBlock_deref hget b fun p blk hb => ?_
  exact .bind (triple_modifyVertex i _) fun _ =>
    .bind ((hget _).mono (fun _ => id) fun _ _ hs => hs.1) fun q =>
    .bind (triple_modifyBlock q _) fun _ =>
    .bind ((hget _).mono (fun _ => id) fun _ _ hs => hs.1) fun q' =>
    .bind (triple_modifyBlock q' _) fun _ => triple_release hget hb

end Removals

end Nynn
