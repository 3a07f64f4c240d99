import Nynn.Library.LinkedRing
import Nynn.Storage.FlatStore
import Nynn.Storage.VertexLists

/-!
# The list operations as writes to a ring

The links of a vertex and of its blocks are read as a ring through `INVALID_BLOCKNO`, so that a
write to a vertex's head or tail and a write to the link of a block become one operation. Each of
the seven list operations then is either the insertion of a block into the ring or the removal of
one, whichever branch of the source it takes.

Source: `nynn_mm_subgraph_set.h`.

## Main definitions

* `Nynn.Storage.ring`: the ring of a vertex.
* `Nynn.Storage.link`, `Nynn.Storage.unlink`: the insertion and the removal of a block.
* `Nynn.LinksOnly`: two states differ in links only.

## Main results

* `Nynn.ring_link`, `Nynn.ring_unlink`: the operations on the ring.
* `Nynn.push_run`, `Nynn.unshift_run`, `Nynn.insertPrev_run`, `Nynn.insertNext_run`: insertions.
* `Nynn.pop_run`, `Nynn.shift_run`, `Nynn.remove_run`: removals.
-/

namespace Nynn

open Program LinkedRing

variable {c : Config}

/-! ### The ring of a vertex -/

/-- The links of the blocks, closed to a ring by the ends of a vertex. -/
def Storage.ring {M : Type} (s : Storage c M) (vtx : Fin c.vertexIntervalWidth) :
    Links UInt32 where
  next b := if b = invalidBlkno then (s.superblk.vertices vtx).headBlkno else (s.blocks b).getNext
  prev b := if b = invalidBlkno then (s.superblk.vertices vtx).tailBlkno else (s.blocks b).getPrev

section

variable {M : Type} (s : Storage c M) (vtx : Fin c.vertexIntervalWidth)

@[simp] theorem ring_next_invalidBlkno :
    (s.ring vtx).next invalidBlkno = (s.superblk.vertices vtx).headBlkno := by
  simp [Storage.ring]

@[simp] theorem ring_prev_invalidBlkno :
    (s.ring vtx).prev invalidBlkno = (s.superblk.vertices vtx).tailBlkno := by
  simp [Storage.ring]

theorem ring_next {b : UInt32} (hb : b ≠ invalidBlkno) :
    (s.ring vtx).next b = (s.blocks b).getNext := by
  simp [Storage.ring, hb]

theorem ring_prev {b : UInt32} (hb : b ≠ invalidBlkno) :
    (s.ring vtx).prev b = (s.blocks b).getPrev := by
  simp [Storage.ring, hb]

end

/-- Let `x` follow `a`; the first block follows `INVALID_BLOCKNO`. -/
def Storage.setNextLink (s : FlatStorage c) (vtx : Fin c.vertexIntervalWidth) (a x : UInt32) :
    FlatStorage c :=
  if a = invalidBlkno then s.setVertex vtx ((s.superblk.vertices vtx).setHeadBlkno x)
  else s.setBlock a ((s.blocks a).setNext x)

/-- Let `x` precede `b`; the last block precedes `INVALID_BLOCKNO`. -/
def Storage.setPrevLink (s : FlatStorage c) (vtx : Fin c.vertexIntervalWidth) (b x : UInt32) :
    FlatStorage c :=
  if b = invalidBlkno then s.setVertex vtx ((s.superblk.vertices vtx).setTailBlkno x)
  else s.setBlock b ((s.blocks b).setPrev x)

/-- Put the block `x` with the bytes `blk` between `a` and `b`. -/
def Storage.link (s : FlatStorage c) (vtx : Fin c.vertexIntervalWidth) (vtxno a x b : UInt32)
    (blk : Block c.blockSz) : FlatStorage c :=
  ((s.setNextLink vtx a x).setPrevLink vtx b x).setBlock x
    (((blk.setSource vtxno).setPrev a).setNext b)

/-- Let `a` and `b` be neighbours. -/
def Storage.unlink (s : FlatStorage c) (vtx : Fin c.vertexIntervalWidth) (a b : UInt32) :
    FlatStorage c :=
  (s.setNextLink vtx a b).setPrevLink vtx b a

/-- The states differ only in the links of the blocks in `changed` and in the ends of a vertex. -/
structure LinksOnly (s s' : FlatStorage c) (vtx : Fin c.vertexIntervalWidth)
    (changed : List UInt32) : Prop where
  headBlkno : s'.superblk.headBlkno = s.superblk.headBlkno
  numOfFreeBlks : s'.superblk.numOfFreeBlks = s.superblk.numOfFreeBlks
  supBlkno : s'.superblk.supBlkno = s.superblk.supBlkno
  files : s'.files = s.files
  vertices : ∀ w, w ≠ vtx → s'.superblk.vertices w = s.superblk.vertices w
  source : (s'.superblk.vertices vtx).source = (s.superblk.vertices vtx).source
  size : (s'.superblk.vertices vtx).size = (s.superblk.vertices vtx).size
  blocks : ∀ b, b ∉ changed → s'.blocks b = s.blocks b
  body : ∀ b, (s.blocks b).SameBody (s'.blocks b)

namespace LinksOnly

variable {s s' s'' : FlatStorage c} {vtx : Fin c.vertexIntervalWidth}
  {changed changed' : List UInt32}

theorem trans (h : LinksOnly s s' vtx changed) (h' : LinksOnly s' s'' vtx changed') :
    LinksOnly s s'' vtx (changed ++ changed') where
  headBlkno := h'.headBlkno.trans h.headBlkno
  numOfFreeBlks := h'.numOfFreeBlks.trans h.numOfFreeBlks
  supBlkno := h'.supBlkno.trans h.supBlkno
  files := h'.files.trans h.files
  vertices w hw := (h'.vertices w hw).trans (h.vertices w hw)
  source := h'.source.trans h.source
  size := h'.size.trans h.size
  blocks b hb := by
    rw [List.mem_append, not_or] at hb
    exact (h'.blocks b hb.2).trans (h.blocks b hb.1)
  body b := (h.body b).trans (h'.body b)

theorem isBlock_eq (h : LinksOnly s s' vtx changed) : s'.isBlock = s.isBlock := by
  funext b
  rw [Storage.isBlock, Storage.isBlock, h.supBlkno]

private theorem setVertex {v : Vertex} (hsource : v.source = (s.superblk.vertices vtx).source)
    (hsize : v.size = (s.superblk.vertices vtx).size) :
    LinksOnly s (s.setVertex vtx v) vtx changed where
  headBlkno := rfl
  numOfFreeBlks := rfl
  supBlkno := rfl
  files := rfl
  vertices w hw := Function.update_of_ne hw _ _
  source := by simpa using hsource
  size := by simpa using hsize
  blocks _ _ := rfl
  body b := .refl _

private theorem setBlock {a : UInt32} {blk : Block c.blockSz} (ha : a ∈ changed)
    (hblk : (s.blocks a).SameBody blk) : LinksOnly s (s.setBlock a blk) vtx changed where
  headBlkno := rfl
  numOfFreeBlks := rfl
  supBlkno := rfl
  files := rfl
  vertices _ _ := rfl
  source := rfl
  size := rfl
  blocks b hb := Function.update_of_ne (fun e : b = a => hb (e ▸ ha)) _ _
  body b := by
    by_cases hb : b = a
    · rw [hb, blocks_setBlock, Function.update_self]
      exact hblk
    · rw [blocks_setBlock, Function.update_of_ne hb]
      exact .refl _

theorem setNextLink (s : FlatStorage c) (vtx : Fin c.vertexIntervalWidth) (a x : UInt32) :
    LinksOnly s (s.setNextLink vtx a x) vtx [a] := by
  rw [Storage.setNextLink]
  split_ifs
  · exact setVertex rfl rfl
  · exact setBlock List.mem_cons_self (.setNext _ x)

theorem setPrevLink (s : FlatStorage c) (vtx : Fin c.vertexIntervalWidth) (b x : UInt32) :
    LinksOnly s (s.setPrevLink vtx b x) vtx [b] := by
  rw [Storage.setPrevLink]
  split_ifs
  · exact setVertex rfl rfl
  · exact setBlock List.mem_cons_self (.setPrev _ x)

theorem unlink (s : FlatStorage c) (vtx : Fin c.vertexIntervalWidth) (a b : UInt32) :
    LinksOnly s (s.unlink vtx a b) vtx [a, b] :=
  (setNextLink s vtx a b).trans (setPrevLink _ vtx b a)

/-- An insertion changes the links of the two neighbours and writes the new block. -/
theorem link (s : FlatStorage c) (vtx : Fin c.vertexIntervalWidth) (a x b : UInt32) :
    LinksOnly s ((s.setNextLink vtx a x).setPrevLink vtx b x) vtx [a, b] :=
  (setNextLink s vtx a x).trans (setPrevLink _ vtx b x)

end LinksOnly

section Ring

variable (s : FlatStorage c) (vtx : Fin c.vertexIntervalWidth)

theorem ring_setNextLink (a x : UInt32) : (s.setNextLink vtx a x).ring vtx =
    { s.ring vtx with next := Function.update (s.ring vtx).next a x } := by
  rw [Storage.setNextLink]
  split_ifs with ha
  · ext b
    · by_cases hb : b = invalidBlkno
      · simp [Storage.ring, ha, hb, Vertex.setHeadBlkno]
      · simp [Storage.ring, ha, hb]
    · simp [Storage.ring, Vertex.setHeadBlkno]
  · ext b
    · by_cases hb : b = a
      · simp [Storage.ring, ha, hb]
      · simp [Storage.ring, hb]
    · by_cases hb : b = a
      · simp [Storage.ring, ha, hb]
      · simp [Storage.ring, hb]

theorem ring_setPrevLink (b x : UInt32) : (s.setPrevLink vtx b x).ring vtx =
    { s.ring vtx with prev := Function.update (s.ring vtx).prev b x } := by
  rw [Storage.setPrevLink]
  split_ifs with hb
  · ext a
    · simp [Storage.ring, Vertex.setTailBlkno]
    · by_cases ha : a = invalidBlkno
      · simp [Storage.ring, ha, hb, Vertex.setTailBlkno]
      · simp [Storage.ring, ha, hb]
  · ext a
    · by_cases ha : a = b
      · simp [Storage.ring, ha, hb]
      · simp [Storage.ring, ha]
    · by_cases ha : a = b
      · simp [Storage.ring, ha, hb]
      · simp [Storage.ring, ha]

theorem ring_unlink (a b : UInt32) :
    (s.unlink vtx a b).ring vtx = (s.ring vtx).unlink a b := by
  rw [Storage.unlink, ring_setPrevLink, ring_setNextLink]
  rfl

theorem ring_setBlock {x : UInt32} (hx : x ≠ invalidBlkno) (blk : Block c.blockSz) :
    (s.setBlock x blk).ring vtx =
      ⟨Function.update (s.ring vtx).next x blk.getNext,
        Function.update (s.ring vtx).prev x blk.getPrev⟩ := by
  ext b
  · by_cases hb : b = x
    · simp [Storage.ring, hb, hx]
    · simp [Storage.ring, hb]
  · by_cases hb : b = x
    · simp [Storage.ring, hb, hx]
    · simp [Storage.ring, hb]

/-- **Insertion.** -/
theorem ring_link (vtxno a : UInt32) {x : UInt32} (hx : x ≠ invalidBlkno) (b : UInt32)
    (blk : Block c.blockSz) :
    (s.link vtx vtxno a x b blk).ring vtx = (s.ring vtx).insert a x b := by
  rw [Storage.link, ring_setBlock _ _ hx, ring_setPrevLink, ring_setNextLink,
    Block.getNext_setNext, Block.getPrev_setNext, Block.getPrev_setPrev]
  rfl

/-- The two writes of an insertion or a removal commute. -/
theorem setPrevLink_setNextLink (a b x y : UInt32) :
    (s.setPrevLink vtx b y).setNextLink vtx a x = (s.setNextLink vtx a x).setPrevLink vtx b y := by
  by_cases ha : a = invalidBlkno
  · by_cases hb : b = invalidBlkno
    · simp [Storage.setNextLink, Storage.setPrevLink, ha, hb, Storage.setVertex,
        Vertex.setHeadBlkno, Vertex.setTailBlkno]
    · simp [Storage.setNextLink, Storage.setPrevLink, ha, hb, Storage.setVertex, Storage.setBlock]
  · by_cases hb : b = invalidBlkno
    · simp [Storage.setNextLink, Storage.setPrevLink, ha, hb, Storage.setVertex, Storage.setBlock]
    · by_cases hab : a = b
      · simp [Storage.setNextLink, Storage.setPrevLink, hab, hb, Storage.setBlock,
          Block.setNext_setPrev]
      · simp [Storage.setNextLink, Storage.setPrevLink, ha, hb, hab, Storage.setBlock,
          Function.update_of_ne (Ne.symm hab), Function.update_comm hab]

end Ring

/-! ### Insertions -/

/-- The state after the content of a block was added to the size of a vertex. -/
def Storage.addSize {M : Type} (s : Storage c M) (vtx : Fin c.vertexIntervalWidth)
    (blk : Block c.blockSz) : Storage c M :=
  s.setVertex vtx
    ((s.superblk.vertices vtx).resize ((s.superblk.vertices vtx).size + blk.contentSize))

/-- The state after the content of a block was taken off the size of a vertex. -/
def Storage.subSize (s : FlatStorage c) (vtx : Fin c.vertexIntervalWidth)
    (blk : Block c.blockSz) : FlatStorage c :=
  s.setVertex vtx
    ((s.superblk.vertices vtx).resize ((s.superblk.vertices vtx).size - blk.contentSize))

section Runs

variable {s s' : FlatStorage c} {vtx : Fin c.vertexIntervalWidth} {vtxno x : UInt32}
  {blk : Block c.blockSz} {disk : CreateOutcome}

theorem getVertex_run {M : Type} {s : Storage c M}
    (h : vertexSlot s.superblk.getMinVtxno vtxno = vtx.val) :
    (getVertex vtxno).run s = (.ok vtx, s) := by
  have hlt : vertexSlot s.superblk.getMinVtxno vtxno < c.vertexIntervalWidth := h ▸ vtx.isLt
  have heq : (⟨vertexSlot s.superblk.getMinVtxno vtxno, hlt⟩ : Fin c.vertexIntervalWidth) = vtx :=
    Fin.ext h
  rw [getVertex, Prog.run_get_bind, dif_pos hlt, heq, Prog.run_pure]

theorem isBlock_setNextLink (s : FlatStorage c) (vtx : Fin c.vertexIntervalWidth)
    (a x : UInt32) : (s.setNextLink vtx a x).isBlock = s.isBlock :=
  (LinksOnly.setNextLink s vtx a x).isBlock_eq

theorem isBlock_setPrevLink (s : FlatStorage c) (vtx : Fin c.vertexIntervalWidth)
    (b x : UInt32) : (s.setPrevLink vtx b x).isBlock = s.isBlock :=
  (LinksOnly.setPrevLink s vtx b x).isBlock_eq

private theorem setNextLink_invalid (s : FlatStorage c) (vtx : Fin c.vertexIntervalWidth)
    (x : UInt32) : (modifyVertex vtx (Vertex.setHeadBlkno · x)).run s =
      (.ok (), s.setNextLink vtx invalidBlkno x) := by
  rw [modifyVertex_apply, Storage.setNextLink, if_pos rfl]

private theorem setPrevLink_invalid (s : FlatStorage c) (vtx : Fin c.vertexIntervalWidth)
    (x : UInt32) : (modifyVertex vtx (Vertex.setTailBlkno · x)).run s =
      (.ok (), s.setPrevLink vtx invalidBlkno x) := by
  rw [modifyVertex_apply, Storage.setPrevLink, if_pos rfl]

private theorem setNextLink_block {a : UInt32} (s : FlatStorage c)
    (vtx : Fin c.vertexIntervalWidth) (x : UInt32) (ha : a ≠ invalidBlkno) :
    (modifyBlock (some (blockPtr c a)) (Block.setNext · x)).run s =
      (.ok (), s.setNextLink vtx a x) := by
  rw [modifyBlock_blockPtr, Storage.setNextLink, if_neg ha]

private theorem setPrevLink_block {b : UInt32} (s : FlatStorage c)
    (vtx : Fin c.vertexIntervalWidth) (x : UInt32) (hb : b ≠ invalidBlkno) :
    (modifyBlock (some (blockPtr c b)) (Block.setPrev · x)).run s =
      (.ok (), s.setPrevLink vtx b x) := by
  rw [modifyBlock_blockPtr, Storage.setPrevLink, if_neg hb]

/-- The write of the new block, which every insertion ends with. -/
private theorem link_run (hx : s'.isBlock x = true) (vtx : Fin c.vertexIntervalWidth)
    (vtxno a b : UInt32) (blk : Block c.blockSz) :
    (do
      writeBlock x (((blk.setSource vtxno).setPrev a).setNext b)
      pure x : StorageM c AllMapped UInt32).run ((s'.setNextLink vtx a x).setPrevLink vtx b x) =
        (.ok x, s'.link vtx vtxno a x b blk) := by
  have hx' : ((s'.setNextLink vtx a x).setPrevLink vtx b x).isBlock x = true := by
    rwa [isBlock_setPrevLink, isBlock_setNextLink]
  rw [Prog.run_bind_of_ok (writeBlock_of_isBlock _ hx')]
  rfl

/-- A push links the new block in between the last block and the end. -/
theorem push_run (hvtx : vertexSlot s.superblk.getMinVtxno vtxno = vtx.val)
    (hreq : (require disk).run (s.addSize vtx blk) = (.ok x, s')) (hx : s'.isBlock x = true)
    (htail : (s'.superblk.vertices vtx).tailBlkno = invalidBlkno ∨
      s'.isBlock (s'.superblk.vertices vtx).tailBlkno = true) :
    (push disk vtxno blk).run s = (.ok x,
      s'.link vtx vtxno (s'.superblk.vertices vtx).tailBlkno x invalidBlkno blk) := by
  obtain ⟨a, ha⟩ : ∃ a, a = (s'.superblk.vertices vtx).tailBlkno := ⟨_, rfl⟩
  rw [Storage.addSize] at hreq
  rw [push, Prog.run_bind_of_ok (getVertex_run hvtx), Prog.run_bind_of_ok (modifyVertex_apply ..),
    Prog.run_bind_of_ok hreq, if_neg (ne_invalidBlkno_of_isBlock hx),
    Prog.run_bind_of_ok (readVertex_apply ..)]
  simp only [← ha] at htail ⊢
  by_cases hinv : a = invalidBlkno
  · rw [if_neg (not_not.mpr hinv), hinv, Prog.run_bind_of_ok (setNextLink_invalid s' vtx x),
      Prog.run_bind_of_ok (setPrevLink_invalid _ vtx x), link_run hx]
  · rw [if_pos hinv, Prog.run_bind_of_ok (getBlock_of_isBlock (htail.resolve_left hinv)),
      Prog.run_bind_of_ok (setPrevLink_invalid s' vtx x),
      Prog.run_bind_of_ok (setNextLink_block _ vtx x hinv), setPrevLink_setNextLink, link_run hx]

/-- An unshift links the new block in between the end and the first block. -/
theorem unshift_run (hvtx : vertexSlot s.superblk.getMinVtxno vtxno = vtx.val)
    (hreq : (require disk).run (s.addSize vtx blk) = (.ok x, s')) (hx : s'.isBlock x = true)
    (hhead : (s'.superblk.vertices vtx).headBlkno = invalidBlkno ∨
      s'.isBlock (s'.superblk.vertices vtx).headBlkno = true) :
    (unshift disk vtxno blk).run s = (.ok x,
      s'.link vtx vtxno invalidBlkno x (s'.superblk.vertices vtx).headBlkno blk) := by
  obtain ⟨b, hb⟩ : ∃ b, b = (s'.superblk.vertices vtx).headBlkno := ⟨_, rfl⟩
  rw [Storage.addSize] at hreq
  rw [unshift, Prog.run_bind_of_ok (getVertex_run hvtx),
    Prog.run_bind_of_ok (modifyVertex_apply ..), Prog.run_bind_of_ok hreq,
    if_neg (ne_invalidBlkno_of_isBlock hx), Prog.run_bind_of_ok (readVertex_apply ..)]
  simp only [← hb, ← Block.setNext_setPrev] at hhead ⊢
  by_cases hinv : b = invalidBlkno
  · rw [if_neg (not_not.mpr hinv), hinv, Prog.run_bind_of_ok (setNextLink_invalid s' vtx x),
      Prog.run_bind_of_ok (setPrevLink_invalid _ vtx x), link_run hx]
  · rw [if_pos hinv, Prog.run_bind_of_ok (getBlock_of_isBlock (hhead.resolve_left hinv)),
      Prog.run_bind_of_ok (setNextLink_invalid s' vtx x),
      Prog.run_bind_of_ok (setPrevLink_block _ vtx x hinv), link_run hx]

/-- An insertion before an inner block. -/
theorem insertPrev_run {b : UInt32} (hvtx : vertexSlot s.superblk.getMinVtxno vtxno = vtx.val)
    (hhead : b ≠ (s.superblk.vertices vtx).headBlkno) (hb : b ≠ invalidBlkno)
    (hreq : (require disk).run s = (.ok x, s')) (hx : s'.isBlock x = true)
    (hblk : s'.isBlock b = true) (hprev : s'.isBlock (s'.blocks b).getPrev = true) :
    (insertPrev disk vtxno b blk).run s = (.ok x,
      (s'.addSize vtx blk).link vtx vtxno (s'.blocks b).getPrev x b blk) := by
  obtain ⟨a, ha⟩ : ∃ a, a = (s'.blocks b).getPrev := ⟨_, rfl⟩
  rw [← ha] at hprev ⊢
  have hx' : (s'.addSize vtx blk).isBlock x = true := hx
  have hblk' : (s'.addSize vtx blk).isBlock b = true := hblk
  have hprev' : ((s'.addSize vtx blk).setPrevLink vtx b x).isBlock a = true := by
    rw [isBlock_setPrevLink]
    exact hprev
  have hane := ne_invalidBlkno_of_isBlock hprev
  rw [insertPrev, Prog.run_bind_of_ok (getVertex_run hvtx),
    Prog.run_bind_of_ok (readVertex_apply ..)]
  simp only [if_neg hhead, if_neg hb]
  rw [Prog.run_bind_of_ok hreq, if_neg (ne_invalidBlkno_of_isBlock hx),
    Prog.run_bind_of_ok (modifyVertex_apply ..), ← Storage.addSize,
    Prog.run_bind_of_ok (getBlock_of_isBlock hblk'), Prog.run_bind_of_ok (deref_blockPtr _ _)]
  have ha' : ((s'.addSize vtx blk).blocks b).getPrev = a := ha.symm
  simp only [ha', ← Block.setNext_setPrev]
  rw [Prog.run_bind_of_ok (setPrevLink_block _ vtx x hb),
    Prog.run_bind_of_ok (getBlock_of_isBlock hprev'),
    Prog.run_bind_of_ok (setNextLink_block _ vtx x hane), setPrevLink_setNextLink, link_run hx']

/-- An insertion after an inner block. -/
theorem insertNext_run {a : UInt32} (hvtx : vertexSlot s.superblk.getMinVtxno vtxno = vtx.val)
    (htail : a ≠ (s.superblk.vertices vtx).tailBlkno) (ha : a ≠ invalidBlkno)
    (hreq : (require disk).run s = (.ok x, s')) (hx : s'.isBlock x = true)
    (hblk : s'.isBlock a = true) (hnext : s'.isBlock (s'.blocks a).getNext = true) :
    (insertNext disk vtxno a blk).run s = (.ok x,
      (s'.addSize vtx blk).link vtx vtxno a x (s'.blocks a).getNext blk) := by
  obtain ⟨b, hb⟩ : ∃ b, b = (s'.blocks a).getNext := ⟨_, rfl⟩
  rw [← hb] at hnext ⊢
  have hx' : (s'.addSize vtx blk).isBlock x = true := hx
  have hblk' : (s'.addSize vtx blk).isBlock a = true := hblk
  have hnext' : ((s'.addSize vtx blk).setNextLink vtx a x).isBlock b = true := by
    rw [isBlock_setNextLink]
    exact hnext
  have hbne := ne_invalidBlkno_of_isBlock hnext
  rw [insertNext, Prog.run_bind_of_ok (getVertex_run hvtx),
    Prog.run_bind_of_ok (readVertex_apply ..)]
  simp only [if_neg htail, if_neg ha]
  rw [Prog.run_bind_of_ok hreq, if_neg (ne_invalidBlkno_of_isBlock hx),
    Prog.run_bind_of_ok (modifyVertex_apply ..), ← Storage.addSize,
    Prog.run_bind_of_ok (getBlock_of_isBlock hblk'), Prog.run_bind_of_ok (deref_blockPtr _ _)]
  have hb' : ((s'.addSize vtx blk).blocks a).getNext = b := hb.symm
  simp only [hb', ← Block.setNext_setPrev]
  rw [Prog.run_bind_of_ok (setNextLink_block _ vtx x ha),
    Prog.run_bind_of_ok (getBlock_of_isBlock hnext'),
    Prog.run_bind_of_ok (setPrevLink_block _ vtx x hbne), link_run hx']

/-! ### Removals -/

/-- A pop of a vertex with two blocks or more takes the last block out. -/
theorem pop_run {a : UInt32} (hvtx : vertexSlot s.superblk.getMinVtxno vtxno = vtx.val)
    (htail : (s.superblk.vertices vtx).tailBlkno = x) (hx : s.isBlock x = true)
    (hprev : (s.blocks x).getPrev = a) (ha : s.isBlock a = true) :
    (pop vtxno).run s =
      (release x).run ((s.subSize vtx (s.blocks x)).unlink vtx a invalidBlkno) := by
  have ha' : ((s.subSize vtx (s.blocks x))).isBlock a = true := ha
  have hane := ne_invalidBlkno_of_isBlock ha
  rw [pop, Prog.run_bind_of_ok (getVertex_run hvtx), Prog.run_bind_of_ok (readVertex_apply ..)]
  simp only [htail, if_neg (ne_invalidBlkno_of_isBlock hx)]
  rw [Prog.run_bind_of_ok (getBlock_of_isBlock hx), Prog.run_bind_of_ok (deref_blockPtr _ _),
    Prog.run_bind_of_ok (modifyVertex_apply ..), ← Storage.subSize]
  simp only [hprev, if_pos hane]
  rw [Prog.run_bind_of_ok (getBlock_of_isBlock ha'),
    Prog.run_bind_of_ok (setPrevLink_invalid _ vtx a),
    Prog.run_bind_of_ok (setNextLink_block _ vtx invalidBlkno hane), setPrevLink_setNextLink,
    ← Storage.unlink]

/-- A shift takes the first block out. -/
theorem shift_run {b : UInt32} (hvtx : vertexSlot s.superblk.getMinVtxno vtxno = vtx.val)
    (hhead : (s.superblk.vertices vtx).headBlkno = x) (hx : s.isBlock x = true)
    (hnext : (s.blocks x).getNext = b) (hb : b = invalidBlkno ∨ s.isBlock b = true) :
    (shift vtxno).run s =
      (release x).run ((s.subSize vtx (s.blocks x)).unlink vtx invalidBlkno b) := by
  have hb' : b = invalidBlkno ∨ (s.subSize vtx (s.blocks x)).isBlock b = true := hb
  rw [shift, Prog.run_bind_of_ok (getVertex_run hvtx), Prog.run_bind_of_ok (readVertex_apply ..)]
  simp only [hhead, if_neg (ne_invalidBlkno_of_isBlock hx)]
  rw [Prog.run_bind_of_ok (getBlock_of_isBlock hx), Prog.run_bind_of_ok (deref_blockPtr _ _),
    Prog.run_bind_of_ok (modifyVertex_apply ..), ← Storage.subSize]
  simp only [hnext]
  by_cases hinv : b = invalidBlkno
  · rw [if_neg (not_not.mpr hinv), hinv, Prog.run_bind_of_ok (setNextLink_invalid _ vtx _),
      Prog.run_bind_of_ok (setPrevLink_invalid _ vtx _), ← Storage.unlink]
  · rw [if_pos hinv, Prog.run_bind_of_ok (getBlock_of_isBlock (hb'.resolve_left hinv)),
      Prog.run_bind_of_ok (setNextLink_invalid _ vtx b),
      Prog.run_bind_of_ok (setPrevLink_block _ vtx invalidBlkno hinv), ← Storage.unlink]

/-- A remove of an inner block takes it out. -/
theorem remove_run {a b : UInt32} (hvtx : vertexSlot s.superblk.getMinVtxno vtxno = vtx.val)
    (hhead : (s.superblk.vertices vtx).headBlkno ≠ invalidBlkno)
    (hhead' : (s.superblk.vertices vtx).headBlkno ≠ x)
    (htail : (s.superblk.vertices vtx).tailBlkno ≠ x) (hx : s.isBlock x = true)
    (hprev : (s.blocks x).getPrev = a) (hnext : (s.blocks x).getNext = b)
    (ha : s.isBlock a = true) (hb : s.isBlock b = true) :
    (remove vtxno x).run s =
      (release x).run ((s.subSize vtx (s.blocks x)).unlink vtx a b) := by
  have ha' : (s.subSize vtx (s.blocks x)).isBlock a = true := ha
  have hb' : ((s.subSize vtx (s.blocks x)).setNextLink vtx a b).isBlock b = true := by
    rw [isBlock_setNextLink]
    exact hb
  rw [remove, Prog.run_bind_of_ok (getVertex_run hvtx), Prog.run_bind_of_ok (readVertex_apply ..)]
  simp only [if_neg hhead, if_neg hhead', if_neg htail]
  rw [Prog.run_bind_of_ok (getBlock_of_isBlock hx), Prog.run_bind_of_ok (deref_blockPtr _ _),
    Prog.run_bind_of_ok (modifyVertex_apply ..), ← Storage.subSize]
  simp only [hprev, hnext]
  rw [Prog.run_bind_of_ok (getBlock_of_isBlock ha'),
    Prog.run_bind_of_ok (setNextLink_block _ vtx b (ne_invalidBlkno_of_isBlock ha)),
    Prog.run_bind_of_ok (getBlock_of_isBlock hb'),
    Prog.run_bind_of_ok (setPrevLink_block _ vtx a (ne_invalidBlkno_of_isBlock hb)),
    ← Storage.unlink]

end Runs

end Nynn
