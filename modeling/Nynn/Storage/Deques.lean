import Nynn.Storage.FreePool
import Nynn.Storage.Rings
import Mathlib.Algebra.BigOperators.Group.List.Basic

/-!
# The lists of a subgraph as deques

What a subgraph is for: every vertex owns a list of block numbers, and the block numbers that no
vertex owns are free. The seven list operations are the operations of deques with the names of the
source. A storage represents such a state when the ring of every vertex runs through its list.

Source: `nynn_mm_subgraph_set.h`.

## Main definitions

* `Nynn.Deques`: the abstract state, a pool and a list for every vertex.
* `Nynn.ListOp.listAfter`: what an operation does to the list of its vertex.
* `Nynn.ListOp.apply`: what an operation does to the abstract state.
* `Nynn.Represents`: a storage represents an abstract state.
* `Nynn.Frame`: what an operation on a vertex leaves as it is.

## Main results

* `Nynn.Represents.link`: the insertion of a block in front of a position.
* `Nynn.Represents.unlink`: the removal of a block.
-/

namespace Nynn

open Program LinkedRing

variable {c : Config}

/-! ### The abstract state -/

/-- `x` put directly before `pivot`, or at the end when `pivot` is not in the list. -/
def insertBefore {α : Type*} [DecidableEq α] (pivot x : α) : List α → List α
  | [] => [x]
  | b :: l => if b = pivot then x :: b :: l else b :: insertBefore pivot x l

/-- `x` put directly after `pivot`. -/
def insertAfter {α : Type*} [DecidableEq α] (pivot x : α) : List α → List α
  | [] => []
  | b :: l => if b = pivot then b :: x :: l else b :: insertAfter pivot x l

section Lists

variable {α : Type*} [DecidableEq α] {pivot x : α} {l l₁ l₂ : List α}

theorem insertBefore_of_notMem (h : pivot ∉ l) : insertBefore pivot x l = l ++ [x] := by
  induction l with
  | nil => rfl
  | cons b l ih =>
    rw [List.mem_cons, not_or] at h
    rw [insertBefore, if_neg (Ne.symm h.1), ih h.2, List.cons_append]

theorem insertBefore_append (h : pivot ∉ l₁) :
    insertBefore pivot x (l₁ ++ pivot :: l₂) = l₁ ++ x :: pivot :: l₂ := by
  induction l₁ with
  | nil => rw [List.nil_append, insertBefore, if_pos rfl, List.nil_append]
  | cons b l ih =>
    rw [List.mem_cons, not_or] at h
    rw [List.cons_append, insertBefore, if_neg (Ne.symm h.1), ih h.2, List.cons_append]

theorem insertAfter_append (h : pivot ∉ l₁) :
    insertAfter pivot x (l₁ ++ pivot :: l₂) = l₁ ++ pivot :: x :: l₂ := by
  induction l₁ with
  | nil => rw [List.nil_append, insertAfter, if_pos rfl, List.nil_append]
  | cons b l ih =>
    rw [List.mem_cons, not_or] at h
    rw [List.cons_append, insertAfter, if_neg (Ne.symm h.1), ih h.2, List.cons_append]

theorem mem_insertBefore {b : α} (h : b ∈ insertBefore pivot x l) : b ∈ l ∨ b = x := by
  induction l with
  | nil => exact Or.inr (List.mem_singleton.mp h)
  | cons y l ih =>
    rw [insertBefore] at h
    split_ifs at h
    · rcases List.mem_cons.mp h with rfl | h
      · exact Or.inr rfl
      · exact Or.inl h
    · rcases List.mem_cons.mp h with rfl | h
      · exact Or.inl List.mem_cons_self
      · exact (ih h).imp_left (List.mem_cons_of_mem _)

theorem mem_insertAfter {b : α} (h : b ∈ insertAfter pivot x l) : b ∈ l ∨ b = x := by
  induction l with
  | nil => cases h
  | cons y l ih =>
    rw [insertAfter] at h
    split_ifs at h
    · rcases List.mem_cons.mp h with rfl | h
      · exact Or.inl List.mem_cons_self
      · exact (List.mem_cons.mp h).symm.imp_left (List.mem_cons_of_mem _)
    · rcases List.mem_cons.mp h with rfl | h
      · exact Or.inl List.mem_cons_self
      · exact (ih h).imp_left (List.mem_cons_of_mem _)

end Lists

/-- A list of block numbers for every vertex, and the free blocks. -/
structure Deques (c : Config) where
  pool : FreePool
  lists : Fin c.vertexIntervalWidth → List UInt32

namespace Deques

/-- The state with other free blocks and another list of the vertex `vtx`. -/
def update (d : Deques c) (vtx : Fin c.vertexIntervalWidth) (pool : FreePool)
    (l : List UInt32) : Deques c :=
  ⟨pool, Function.update d.lists vtx l⟩

variable (d : Deques c) (vtx : Fin c.vertexIntervalWidth) (pool : FreePool) (l : List UInt32)

@[simp] theorem pool_update : (d.update vtx pool l).pool = pool := rfl

@[simp] theorem lists_update_self : (d.update vtx pool l).lists vtx = l := Function.update_self ..

theorem lists_update_of_ne {w : Fin c.vertexIntervalWidth} (hw : w ≠ vtx) :
    (d.update vtx pool l).lists w = d.lists w := Function.update_of_ne hw _ _

end Deques

namespace ListOp

variable {z : BlockSz}

/-- The list of the vertex after the operation; `x` is the number of the new block. For an
insertion `INVALID_BLOCKNO` means the end before and the front after. -/
def listAfter (x : UInt32) : ListOp z → List UInt32 → List UInt32
  | push _ _, l => l ++ [x]
  | unshift _ _, l => x :: l
  | insertPrev _ nextBlkno _, l => insertBefore nextBlkno x l
  | insertNext _ prevBlkno _, l =>
    if prevBlkno = invalidBlkno then x :: l else insertAfter prevBlkno x l
  | pop _, l => l.dropLast
  | shift _, l => l.tail
  | remove _ blkno, l => l.erase blkno

/-- The block an operation takes out of the list. -/
def dropped : ListOp z → List UInt32 → Option UInt32
  | pop _, l => l.getLast?
  | shift _, l => l.head?
  | remove _ blkno, _ => some blkno
  | _, _ => none

/-- The block arguments: `INVALID_BLOCKNO` where an insertion allows it, and otherwise blocks of
the list. -/
def Allowed : ListOp z → List UInt32 → Prop
  | insertPrev _ nextBlkno _, l => nextBlkno = invalidBlkno ∨ nextBlkno ∈ l
  | insertNext _ prevBlkno _, l => prevBlkno = invalidBlkno ∨ prevBlkno ∈ l
  | remove _ blkno, l => blkno ∈ l
  | _, _ => True

/-- The operation is not a pop of a list with exactly one block. -/
def NotPopLast : ListOp z → List UInt32 → Prop
  | pop _, l => l.length ≠ 1
  | _, _ => True

/-- A list after an operation has blocks of the list before it, and the new block. -/
theorem mem_listAfter (op : ListOp z) {x b : UInt32} {l : List UInt32}
    (h : b ∈ op.listAfter x l) : b ∈ l ∨ op.newBlk.isSome = true ∧ b = x := by
  cases op with
  | push v blk => simpa [listAfter, newBlk] using h
  | unshift v blk => simpa [listAfter, newBlk, or_comm] using h
  | insertPrev v pivot blk => simpa [newBlk] using mem_insertBefore h
  | insertNext v pivot blk =>
    rw [listAfter] at h
    split_ifs at h
    · simpa [newBlk, or_comm] using h
    · simpa [newBlk] using mem_insertAfter h
  | pop v => exact Or.inl (List.mem_of_mem_dropLast h)
  | shift v => exact Or.inl (List.mem_of_mem_tail h)
  | remove v y => exact Or.inl (List.mem_of_mem_erase h)

/-- A removal that takes nothing out leaves the list. -/
theorem listAfter_of_dropped_none (op : ListOp z) {x : UInt32} {l : List UInt32}
    (hnew : op.newBlk = none) (h : op.dropped l = none) : op.listAfter x l = l := by
  cases op with
  | push | unshift | insertPrev | insertNext => cases hnew
  | pop v =>
    rw [List.getLast?_eq_none_iff.mp h]
    rfl
  | shift v =>
    rw [List.head?_eq_none_iff.mp h]
    rfl
  | remove v y => cases h

/-- An operation on the list of the vertex `vtx`, with the block number an insertion returns. -/
def apply (op : ListOp c.blockSz) (vtx : Fin c.vertexIntervalWidth) (d : Deques c) :
    Option UInt32 × Deques c :=
  match op.newBlk with
  | some _ =>
    let r := d.pool.require c.groupSize
    (some r.1, d.update vtx r.2 (op.listAfter r.1 (d.lists vtx)))
  | none =>
    match op.dropped (d.lists vtx) with
    | some b =>
      (none, d.update vtx (d.pool.release b) (op.listAfter invalidBlkno (d.lists vtx)))
    | none => (none, d)

end ListOp

/-! ### Representation -/

/-- The number of content bytes in a list of blocks. -/
def contentSum {z : BlockSz} (blocks : UInt32 → Block z) (l : List UInt32) : ℕ :=
  (l.map fun b => (blocks b).contentSize.toNat).sum

theorem contentSum_congr {z : BlockSz} {blocks blocks' : UInt32 → Block z} {l : List UInt32}
    (h : ∀ b ∈ l, (blocks' b).contentSize = (blocks b).contentSize) :
    contentSum blocks' l = contentSum blocks l := by
  rw [contentSum, contentSum]
  exact congrArg List.sum (List.map_congr_left fun b hb => congrArg UInt32.toNat (h b hb))

theorem contentSum_insert {z : BlockSz} (blocks : UInt32 → Block z) (l₁ l₂ : List UInt32)
    (x : UInt32) : contentSum blocks (l₁ ++ x :: l₂) =
      contentSum blocks (l₁ ++ l₂) + (blocks x).contentSize.toNat := by
  simp only [contentSum, List.map_append, List.map_cons, List.sum_append, List.sum_cons]
  omega

/-- The storage of a subgraph represents an abstract state: the free list is the pool, the ring of
every vertex runs through its list, the lists are disjoint, and every block is free or in a
list. -/
structure Represents (s : FlatStorage c) (minVtxno : UInt32) (d : Deques c) : Prop where
  refines : Refines s d.pool
  source : ∀ vtx, (s.superblk.vertices vtx).source = minVtxno + UInt32.ofNat vtx.val
  linked : ∀ vtx, Linked (s.ring vtx) invalidBlkno (d.lists vtx)
  size : ∀ vtx, (s.superblk.vertices vtx).size.toNat =
    contentSum s.blocks (d.lists vtx) % 2 ^ 32
  blockSource : ∀ vtx, ∀ b ∈ d.lists vtx,
    (s.blocks b).getSource = minVtxno + UInt32.ofNat vtx.val
  cover : ∀ b, s.isBlock b = true ↔ b ∈ d.pool.stack ∨ ∃ vtx, b ∈ d.lists vtx
  notMem_stack : ∀ vtx, ∀ b ∈ d.lists vtx, b ∉ d.pool.stack
  disjoint : ∀ vtx w, vtx ≠ w → ∀ b ∈ d.lists vtx, b ∉ d.lists w

/-- What an operation on the vertex `vtx` leaves as it is: the other vertices, the blocks of their
lists, and all but the links of the blocks that stay in the list of `vtx`. -/
structure Frame (s s' : FlatStorage c) (vtx : Fin c.vertexIntervalWidth) (d d' : Deques c) :
    Prop where
  vertices : ∀ w, w ≠ vtx → s'.superblk.vertices w = s.superblk.vertices w
  lists : ∀ w, w ≠ vtx → d'.lists w = d.lists w
  blocks : ∀ w, w ≠ vtx → ∀ b ∈ d.lists w, s'.blocks b = s.blocks b
  body : ∀ b ∈ d.lists vtx, b ∈ d'.lists vtx → (s.blocks b).SameBody (s'.blocks b)

namespace Represents

variable {s s' : FlatStorage c} {minVtxno : UInt32} {d : Deques c}
  {vtx : Fin c.vertexIntervalWidth} {l₁ l₂ : List UInt32} {x : UInt32}

theorem getMinVtxno (h : Represents s minVtxno d) : s.superblk.getMinVtxno = minVtxno := by
  rw [SuperBlock.getMinVtxno, h.source]
  exact UInt32.add_zero minVtxno

/-- The vertices of a subgraph are found. -/
theorem vertexSlot (h : Represents s minVtxno d) (vtx : Fin c.vertexIntervalWidth) :
    vertexSlot s.superblk.getMinVtxno (minVtxno + UInt32.ofNat vtx.val) = vtx.val := by
  have hlt := vtx.isLt.trans c.vertexIntervalWidth_lt
  rw [h.getMinVtxno, Nynn.vertexSlot, UInt32.add_comm, UInt32.add_sub_cancel,
    UInt32.toNat_ofNat_of_lt' hlt]

theorem isBlock (h : Represents s minVtxno d) {b : UInt32} (hb : b ∈ d.lists vtx) :
    s.isBlock b = true := (h.cover b).mpr (Or.inr ⟨vtx, hb⟩)

theorem ne_invalidBlkno (h : Represents s minVtxno d) {b : UInt32} (hb : b ∈ d.lists vtx) :
    b ≠ invalidBlkno := ne_invalidBlkno_of_isBlock (h.isBlock hb)

/-- The head of a vertex is the first block of its list. -/
theorem headBlkno (h : Represents s minVtxno d) (vtx : Fin c.vertexIntervalWidth) :
    (s.superblk.vertices vtx).headBlkno = after invalidBlkno (d.lists vtx) := by
  simpa using (h.linked vtx).next_nil

/-- The tail of a vertex is the last block of its list. -/
theorem tailBlkno (h : Represents s minVtxno d) (vtx : Fin c.vertexIntervalWidth) :
    (s.superblk.vertices vtx).tailBlkno = before invalidBlkno (d.lists vtx) := by
  simpa using (h.linked vtx).prev_nil

/-- The neighbours of a block are the blocks next to it in the list. -/
theorem getPrev_getNext (h : Represents s minVtxno d) (hl : d.lists vtx = l₁ ++ x :: l₂) :
    (s.blocks x).getPrev = before invalidBlkno l₁ ∧
      (s.blocks x).getNext = after invalidBlkno l₂ := by
  have hmem : x ∈ d.lists vtx := by simp [hl]
  have hx := h.ne_invalidBlkno hmem
  have hlinked := h.linked vtx
  rw [hl] at hlinked
  have hadj := hlinked.adjacent_mid
  rwa [ring_prev s vtx hx, ring_next s vtx hx] at hadj

/-- The two neighbours of a position in a list are its blocks or the sentinel. -/
theorem before_mem_lists (hl : d.lists vtx = l₁ ++ l₂) :
    before invalidBlkno l₁ = invalidBlkno ∨ before invalidBlkno l₁ ∈ d.lists vtx := by
  refine (List.mem_cons.mp (before_mem invalidBlkno l₁)).imp_right fun hb => ?_
  rw [hl]
  exact List.mem_append_left _ hb

theorem after_mem_lists (hl : d.lists vtx = l₁ ++ l₂) :
    after invalidBlkno l₂ = invalidBlkno ∨ after invalidBlkno l₂ ∈ d.lists vtx := by
  refine (List.mem_cons.mp (after_mem invalidBlkno l₂)).imp_right fun hb => ?_
  rw [hl]
  exact List.mem_append_right _ hb

end Represents

/-- A ring survives a change elsewhere. -/
theorem linked_congr {s s' : FlatStorage c} {vtx : Fin c.vertexIntervalWidth} {l : List UInt32}
    (h : Linked (s.ring vtx) invalidBlkno l)
    (hhead : (s'.superblk.vertices vtx).headBlkno = (s.superblk.vertices vtx).headBlkno)
    (htail : (s'.superblk.vertices vtx).tailBlkno = (s.superblk.vertices vtx).tailBlkno)
    (hblocks : ∀ b ∈ l, s'.blocks b = s.blocks b) : Linked (s'.ring vtx) invalidBlkno l := by
  refine h.congr (fun b hb => ?_) fun b hb => ?_
  · by_cases hinv : b = invalidBlkno
    · rw [hinv, ring_next_invalidBlkno, ring_next_invalidBlkno, hhead]
    · rw [ring_next _ _ hinv, ring_next _ _ hinv,
        hblocks b ((List.mem_cons.mp hb).resolve_left hinv)]
  · by_cases hinv : b = invalidBlkno
    · rw [hinv, ring_prev_invalidBlkno, ring_prev_invalidBlkno, htail]
    · rw [ring_prev _ _ hinv, ring_prev _ _ hinv,
        hblocks b ((List.mem_cons.mp hb).resolve_left hinv)]

/-- A state that differs from a represented one in the links of `vtx` and its size, and in the
blocks around a position of its list, on the way to the representation of `lists'`. -/
private theorem represents_of_update {s s' : FlatStorage c} {minVtxno : UInt32} {d : Deques c}
    {vtx : Fin c.vertexIntervalWidth} {p' : FreePool} {l' : List UInt32}
    (h : Represents s minVtxno d) (hrefines : Refines s' p')
    (hvertices : ∀ w, w ≠ vtx → s'.superblk.vertices w = s.superblk.vertices w)
    (hblocks : ∀ w, w ≠ vtx → ∀ b ∈ d.lists w, s'.blocks b = s.blocks b)
    (hsource : (s'.superblk.vertices vtx).source = (s.superblk.vertices vtx).source)
    (hlinked : Linked (s'.ring vtx) invalidBlkno l')
    (hsize : (s'.superblk.vertices vtx).size.toNat = contentSum s'.blocks l' % 2 ^ 32)
    (hblockSource : ∀ b ∈ l', (s'.blocks b).getSource = minVtxno + UInt32.ofNat vtx.val)
    (hcover : ∀ b, s'.isBlock b = true ↔
      b ∈ p'.stack ∨ b ∈ l' ∨ ∃ w, w ≠ vtx ∧ b ∈ d.lists w)
    (hnew : ∀ b ∈ l', b ∉ p'.stack ∧ ∀ w, w ≠ vtx → b ∉ d.lists w)
    (hold : ∀ w, w ≠ vtx → ∀ b ∈ d.lists w, b ∉ p'.stack) :
    Represents s' minVtxno (d.update vtx p' l') := by
  have hself := d.lists_update_self vtx p' l'
  have hother := fun w => d.lists_update_of_ne vtx p' l' (w := w)
  refine ⟨hrefines, fun w => ?_, fun w => ?_, fun w => ?_, fun w b hb => ?_, fun b => ?_,
    fun w b hb => ?_, fun v w hvw b hb hb' => ?_⟩
  · by_cases hw : w = vtx
    · rw [hw, hsource, h.source]
    · rw [hvertices w hw, h.source]
  · by_cases hw : w = vtx
    · rw [hw, hself]
      exact hlinked
    · rw [hother w hw]
      exact linked_congr (h.linked w) (by rw [hvertices w hw]) (by rw [hvertices w hw])
        (hblocks w hw)
  · by_cases hw : w = vtx
    · rw [hw, hself]
      exact hsize
    · rw [hother w hw, hvertices w hw, h.size]
      exact congrArg (· % 2 ^ 32) (contentSum_congr fun b hb => by rw [hblocks w hw b hb]).symm
  · by_cases hw : w = vtx
    · rw [hw, hself] at hb
      rw [hw]
      exact hblockSource b hb
    · rw [hother w hw] at hb
      rw [hblocks w hw b hb, h.blockSource w b hb]
  · rw [hcover]
    refine or_congr_right ⟨?_, ?_⟩
    · rintro (hb | ⟨w, hw, hb⟩)
      · exact ⟨vtx, by rwa [hself]⟩
      · exact ⟨w, by rwa [hother w hw]⟩
    · rintro ⟨w, hb⟩
      by_cases hw : w = vtx
      · rw [hw, hself] at hb
        exact Or.inl hb
      · rw [hother w hw] at hb
        exact Or.inr ⟨w, hw, hb⟩
  · by_cases hw : w = vtx
    · rw [hw, hself] at hb
      exact (hnew b hb).1
    · rw [hother w hw] at hb
      exact hold w hw b hb
  · by_cases hv : v = vtx
    · have hw : w ≠ vtx := fun e => hvw (hv.trans e.symm)
      rw [hv, hself] at hb
      rw [hother w hw] at hb'
      exact (hnew b hb).2 w hw hb'
    · rw [hother v hv] at hb
      by_cases hw : w = vtx
      · rw [hw, hself] at hb'
        exact (hnew b hb').2 v hv hb
      · rw [hother w hw] at hb'
        exact h.disjoint v w hvw b hb hb'

namespace Represents

variable {s s' : FlatStorage c} {minVtxno : UInt32} {d : Deques c}
  {vtx : Fin c.vertexIntervalWidth} {l₁ l₂ : List UInt32} {x : UInt32}

/-- A block next to a position in the list of `vtx` is in no other list and not free. -/
private theorem notMem_of_list (h : Represents s minVtxno d) {w : Fin c.vertexIntervalWidth}
    (hw : w ≠ vtx) {a b : UInt32} (ha : a = invalidBlkno ∨ a ∈ d.lists vtx)
    (hb : b ∈ d.lists w) : b ≠ a := by
  rintro rfl
  rcases ha with ha | ha
  · exact h.ne_invalidBlkno hb ha
  · exact h.disjoint w vtx hw b hb ha

private theorem cover_link {free free' new left right other : Prop}
    (hsub : free → new ∨ free') :
    (free ∨ (left ∨ right) ∨ other) ∨ new ∨ free' ↔ free' ∨ (left ∨ new ∨ right) ∨ other := by
  tauto

private theorem cover_unlink {free old left right other : Prop} :
    free ∨ (left ∨ old ∨ right) ∨ other ↔ (old ∨ free) ∨ (left ∨ right) ∨ other := by
  tauto

/-- **Insertion.** A block that a require took, linked in at a position of the list of `vtx`. -/
theorem link {blk : Block c.blockSz} {p' : FreePool} (h : Represents s minVtxno d)
    (hl : d.lists vtx = l₁ ++ l₂) (hreq : Required (s.addSize vtx blk) s' d.pool p' x) :
    Represents (s'.link vtx (minVtxno + UInt32.ofNat vtx.val) (before invalidBlkno l₁) x
      (after invalidBlkno l₂) blk) minVtxno (d.update vtx p' (l₁ ++ x :: l₂)) ∧
    Frame s (s'.link vtx (minVtxno + UInt32.ofNat vtx.val) (before invalidBlkno l₁) x
      (after invalidBlkno l₂) blk) vtx d (d.update vtx p' (l₁ ++ x :: l₂)) ∧
    Block.SameBody (blk.setSource (minVtxno + UInt32.ofNat vtx.val))
      ((s'.link vtx (minVtxno + UInt32.ofNat vtx.val) (before invalidBlkno l₁) x
        (after invalidBlkno l₂) blk).blocks x) := by
  obtain ⟨a, ha⟩ : ∃ a, a = before invalidBlkno l₁ := ⟨_, rfl⟩
  obtain ⟨b, hb⟩ : ∃ b, b = after invalidBlkno l₂ := ⟨_, rfl⟩
  have hamem : a = invalidBlkno ∨ a ∈ d.lists vtx := ha ▸ before_mem_lists hl
  have hbmem : b = invalidBlkno ∨ b ∈ d.lists vtx := hb ▸ after_mem_lists hl
  obtain ⟨vtxno, hvtxno⟩ : ∃ vtxno, vtxno = minVtxno + UInt32.ofNat vtx.val := ⟨_, rfl⟩
  rw [← ha, ← hb, ← hvtxno]
  have hxblk : s'.isBlock x = true := (hreq.isBlock_iff x).mpr (Or.inr List.mem_cons_self)
  have hxne := ne_invalidBlkno_of_isBlock hxblk
  have hfresh : ∀ w, ∀ y ∈ d.lists w, y ∉ x :: p'.stack := fun w y hy =>
    hreq.fresh y (h.isBlock hy) (h.notMem_stack w y hy)
  have hkept : ∀ w, ∀ y ∈ d.lists w, s'.blocks y = s.blocks y := fun w y hy =>
    hreq.blocks y (hfresh w y hy)
  have hxlist : ∀ w, x ∉ d.lists w := fun w hx => hfresh w x hx List.mem_cons_self
  obtain ⟨t, ht⟩ : ∃ t, t = (s'.setNextLink vtx a x).setPrevLink vtx b x := ⟨_, rfl⟩
  have hlinks : LinksOnly s' t vtx [a, b] := ht ▸ LinksOnly.link s' vtx a x b
  obtain ⟨s₂, hs₂⟩ : ∃ s₂, s₂ = s'.link vtx vtxno a x b blk := ⟨_, rfl⟩
  have hs₂t : s₂ = t.setBlock x (((blk.setSource vtxno).setPrev a).setNext b) := by
    rw [hs₂, ht, Storage.link]
  have hother : ∀ y, y ≠ x → s₂.blocks y = t.blocks y := fun y hy => by
    rw [hs₂t, blocks_setBlock, Function.update_of_ne hy]
  have hfar : ∀ y, y ≠ x → y ≠ a → y ≠ b → s₂.blocks y = s'.blocks y := fun y hy hya hyb => by
    rw [hother y hy, hlinks.blocks y (by simp [hya, hyb])]
  have hnewBody : (blk.setSource vtxno).SameBody (s₂.blocks x) := by
    rw [hs₂t, blocks_setBlock, Function.update_self]
    exact (Block.SameBody.setPrev _ a).trans (Block.SameBody.setNext _ b)
  have hbody : ∀ y ∈ d.lists vtx, (s.blocks y).SameBody (s₂.blocks y) := fun y hy => by
    rw [hother y fun e => hxlist vtx (e ▸ hy), ← hkept vtx y hy]
    exact hlinks.body y
  have hothers : ∀ w, w ≠ vtx → ∀ y ∈ d.lists w, s₂.blocks y = s.blocks y := fun w hw y hy => by
    rw [hfar y (fun e => hxlist w (e ▸ hy)) (h.notMem_of_list hw hamem hy)
      (h.notMem_of_list hw hbmem hy), hkept w y hy]
  have hvertices : ∀ w, w ≠ vtx → s₂.superblk.vertices w = s.superblk.vertices w := fun w hw => by
    rw [hs₂t, superblk_setBlock, hlinks.vertices w hw, hreq.vertices]
    exact Function.update_of_ne hw _ _
  have hvertex : s'.superblk.vertices vtx = (s.superblk.vertices vtx).resize
      ((s.superblk.vertices vtx).size + blk.contentSize) := by
    rw [hreq.vertices]
    exact Function.update_self ..
  have hisBlock : s₂.isBlock = s'.isBlock := by
    rw [hs₂t, isBlock_setBlock, hlinks.isBlock_eq]
  rw [← hs₂]
  refine ⟨represents_of_update h ?_ hvertices hothers ?_ ?_ ?_ ?_ ?_ ?_ ?_,
    ⟨hvertices, fun w hw => d.lists_update_of_ne vtx p' _ hw, hothers,
      fun y hy _ => hbody y hy⟩,
    hnewBody⟩
  · -- The blocks of the pool are not written.
    refine hreq.refines.congr ?_ ?_ ?_ ?_ fun y hy => hfar y ?_ ?_ ?_
    · rw [hs₂t, superblk_setBlock, hlinks.headBlkno]
    · rw [hs₂t, superblk_setBlock, hlinks.numOfFreeBlks]
    · rw [hs₂t, superblk_setBlock, hlinks.supBlkno]
    · rw [hs₂t, files_setBlock, hlinks.files]
    · rintro rfl
      exact (List.nodup_cons.mp hreq.nodup).1 hy
    · rintro rfl
      rcases hamem with hinv | hmem
      · exact ne_invalidBlkno_of_isBlock (hreq.refines.free.isBlock y hy) hinv
      · exact hfresh vtx y hmem (List.mem_cons_of_mem _ hy)
    · rintro rfl
      rcases hbmem with hinv | hmem
      · exact ne_invalidBlkno_of_isBlock (hreq.refines.free.isBlock y hy) hinv
      · exact hfresh vtx y hmem (List.mem_cons_of_mem _ hy)
  · rw [hs₂t, superblk_setBlock, hlinks.source, hvertex]
    rfl
  · have hlinked : Linked (s'.ring vtx) invalidBlkno (l₁ ++ l₂) := by
      refine linked_congr (hl ▸ h.linked vtx) ?_ ?_ fun y hy => hkept vtx y (hl ▸ hy)
      · rw [hvertex]
        rfl
      · rw [hvertex]
        rfl
    have hnot : x ∉ invalidBlkno :: (l₁ ++ l₂) := by
      rw [List.mem_cons, not_or, ← hl]
      exact ⟨hxne, hxlist vtx⟩
    rw [hs₂, ring_link s' vtx vtxno a hxne b blk, ha, hb]
    exact hlinked.insert hnot
  · have hcontent : (s₂.blocks x).contentSize = blk.contentSize := by
      rw [hnewBody.contentSize, Block.contentSize_setSource]
    have hsum : contentSum s₂.blocks (l₁ ++ l₂) = contentSum s.blocks (l₁ ++ l₂) :=
      contentSum_congr fun y hy => (hbody y (hl ▸ hy)).contentSize
    have hsize := h.size vtx
    rw [contentSum_insert, hsum, hcontent, hs₂t, superblk_setBlock, hlinks.size, hvertex,
      Vertex.resize, UInt32.toNat_add, hsize, hl, Nat.mod_add_mod]
  · intro y hy
    rw [← hvtxno]
    by_cases hyx : y = x
    · rw [hyx, hnewBody.getSource, Block.getSource_setSource]
    · have hy' : y ∈ d.lists vtx := by
        rw [hl]
        simpa [hyx] using hy
      rw [(hbody y hy').getSource, h.blockSource vtx y hy', hvtxno]
  · intro y
    rw [hisBlock, hreq.isBlock_iff]
    have hcover := h.cover y
    have hsub := hreq.stack_subset y
    simp only [List.mem_cons] at hsub
    have hsplit : (∃ w, y ∈ d.lists w) ↔ y ∈ l₁ ++ l₂ ∨ ∃ w, w ≠ vtx ∧ y ∈ d.lists w := by
      constructor
      · rintro ⟨w, hw⟩
        by_cases he : w = vtx
        · exact Or.inl (hl ▸ he ▸ hw)
        · exact Or.inr ⟨w, he, hw⟩
      · rintro (hy | ⟨w, -, hw⟩)
        · exact ⟨vtx, hl ▸ hy⟩
        · exact ⟨w, hw⟩
    rw [hsplit] at hcover
    have haddSize : (s.addSize vtx blk).isBlock y = s.isBlock y := rfl
    rw [haddSize, hcover]
    simp only [List.mem_cons, List.mem_append]
    exact cover_link hsub
  · intro y hy
    by_cases hyx : y = x
    · rw [hyx]
      exact ⟨(List.nodup_cons.mp hreq.nodup).1, fun w _ => hxlist w⟩
    · have hy' : y ∈ d.lists vtx := by
        rw [hl]
        simpa [hyx] using hy
      exact ⟨fun hmem => hfresh vtx y hy' (List.mem_cons_of_mem _ hmem), fun w hw hmem =>
        h.disjoint vtx w (Ne.symm hw) y hy' hmem⟩
  · exact fun w _ y hy hmem => hfresh w y hy (List.mem_cons_of_mem _ hmem)

/-- **Removal.** A block taken out of the list of `vtx` and released. -/
theorem unlink (h : Represents s minVtxno d) (hl : d.lists vtx = l₁ ++ x :: l₂) :
    ∃ s', (release x).run ((s.subSize vtx (s.blocks x)).unlink vtx (before invalidBlkno l₁)
      (after invalidBlkno l₂)) = (.ok (), s') ∧
      Represents s' minVtxno (d.update vtx (d.pool.release x) (l₁ ++ l₂)) ∧
      Frame s s' vtx d (d.update vtx (d.pool.release x) (l₁ ++ l₂)) := by
  obtain ⟨a, ha⟩ : ∃ a, a = before invalidBlkno l₁ := ⟨_, rfl⟩
  obtain ⟨b, hb⟩ : ∃ b, b = after invalidBlkno l₂ := ⟨_, rfl⟩
  have hsnoc : d.lists vtx = (l₁ ++ [x]) ++ l₂ := by simpa using hl
  have hamem : a = invalidBlkno ∨ a ∈ d.lists vtx := ha ▸ before_mem_lists hl
  have hbmem : b = invalidBlkno ∨ b ∈ d.lists vtx := hb ▸ after_mem_lists hsnoc
  rw [← ha, ← hb]
  have hx : x ∈ d.lists vtx := by simp [hl]
  have hxstack := h.notMem_stack vtx x hx
  obtain ⟨t, ht⟩ : ∃ t, t = (s.subSize vtx (s.blocks x)).unlink vtx a b := ⟨_, rfl⟩
  have hlinks : LinksOnly (s.subSize vtx (s.blocks x)) t vtx [a, b] := ht ▸ LinksOnly.unlink ..
  have hsub : (s.subSize vtx (s.blocks x)).blocks = s.blocks := rfl
  have hstack : ∀ y ∈ d.pool.stack, t.blocks y = s.blocks y := fun y hy => by
    rw [hlinks.blocks y, hsub]
    simp only [List.mem_cons, List.not_mem_nil, or_false, not_or]
    refine ⟨?_, ?_⟩
    · rintro rfl
      rcases hamem with hinv | hmem
      · exact ne_invalidBlkno_of_isBlock (h.refines.free.isBlock y hy) hinv
      · exact h.notMem_stack vtx y hmem hy
    · rintro rfl
      rcases hbmem with hinv | hmem
      · exact ne_invalidBlkno_of_isBlock (h.refines.free.isBlock y hy) hinv
      · exact h.notMem_stack vtx y hmem hy
  have hrefines : Refines t d.pool :=
    h.refines.congr hlinks.headBlkno hlinks.numOfFreeBlks hlinks.supBlkno hlinks.files hstack
  have hxblk : t.isBlock x = true := by
    rw [hlinks.isBlock_eq]
    exact h.isBlock hx
  obtain ⟨s', hrun, hrefines', hsame⟩ := hrefines.release hxblk hxstack
  have hrel : ∀ y, y ≠ x → y ∉ d.pool.stack → s'.blocks y = t.blocks y := fun y hyx hy =>
    hsame.blocks y (by simp [hyx, hy])
  have hne : ∀ y ∈ l₁ ++ l₂, y ≠ x := by
    rintro y hy rfl
    have hnd := (h.linked vtx).list_nodup
    rw [hl, List.nodup_middle, List.nodup_cons] at hnd
    exact hnd.1 hy
  have hmem : ∀ y ∈ l₁ ++ l₂, y ∈ d.lists vtx := fun y hy => by
    rw [hl]
    simp only [List.mem_append, List.mem_cons] at hy ⊢
    exact hy.imp_right Or.inr
  have hbody : ∀ y ∈ l₁ ++ l₂, (s.blocks y).SameBody (s'.blocks y) := fun y hy => by
    rw [hrel y (hne y hy) (h.notMem_stack vtx y (hmem y hy)), ← hsub]
    exact hlinks.body y
  have hothers : ∀ w, w ≠ vtx → ∀ y ∈ d.lists w, s'.blocks y = s.blocks y := fun w hw y hy => by
    rw [hrel y (fun e => h.disjoint w vtx hw y hy (e ▸ hx)) (h.notMem_stack w y hy),
      hlinks.blocks y, hsub]
    simp [h.notMem_of_list hw hamem hy, h.notMem_of_list hw hbmem hy]
  have hvertices : ∀ w, w ≠ vtx → s'.superblk.vertices w = s.superblk.vertices w := fun w hw => by
    rw [hsame.vertices, hlinks.vertices w hw]
    exact Function.update_of_ne hw _ _
  have hvertex : (s.subSize vtx (s.blocks x)).superblk.vertices vtx =
      (s.superblk.vertices vtx).resize
        ((s.superblk.vertices vtx).size - (s.blocks x).contentSize) := Function.update_self ..
  have hisBlock : s'.isBlock = s.isBlock := by
    rw [hsame.isBlock_eq, hlinks.isBlock_eq]
    rfl
  rw [← ht]
  refine ⟨s', hrun, represents_of_update h hrefines' hvertices hothers ?_ ?_ ?_ ?_ ?_ ?_ ?_,
    ⟨hvertices, fun w hw => d.lists_update_of_ne vtx _ _ hw, hothers, fun y _ hy => hbody y ?_⟩⟩
  · rw [hsame.vertices, hlinks.source, hvertex]
    rfl
  · have hlinked : Linked (t.ring vtx) invalidBlkno (l₁ ++ l₂) := by
      have hlist := h.linked vtx
      rw [hl] at hlist
      have hlist' : Linked ((s.subSize vtx (s.blocks x)).ring vtx) invalidBlkno
          (l₁ ++ x :: l₂) := by
        refine linked_congr hlist ?_ ?_ fun _ _ => rfl
        · rw [hvertex]
          rfl
        · rw [hvertex]
          rfl
      rw [ht, ring_unlink, ha, hb]
      exact hlist'.unlink
    exact linked_congr hlinked (by rw [hsame.vertices]) (by rw [hsame.vertices]) fun y hy =>
      hrel y (hne y hy) (h.notMem_stack vtx y (hmem y hy))
  · have hsum : contentSum s'.blocks (l₁ ++ l₂) = contentSum s.blocks (l₁ ++ l₂) :=
      contentSum_congr fun y hy => (hbody y hy).contentSize
    have hsize := h.size vtx
    have hlt := (s.blocks x).contentSize.toNat_lt
    rw [hl, contentSum_insert] at hsize
    rw [hsum, hsame.vertices, hlinks.size, hvertex, Vertex.resize, UInt32.toNat_sub, hsize]
    omega
  · intro y hy
    rw [(hbody y hy).getSource, h.blockSource vtx y (hmem y hy)]
  · intro y
    have hsplit : (∃ w, y ∈ d.lists w) ↔
        y ∈ l₁ ++ x :: l₂ ∨ ∃ w, w ≠ vtx ∧ y ∈ d.lists w := by
      refine ⟨fun ⟨w, hw⟩ => ?_, ?_⟩
      · by_cases he : w = vtx
        · exact Or.inl (hl ▸ he ▸ hw)
        · exact Or.inr ⟨w, he, hw⟩
      · rintro (hy | ⟨w, -, hw⟩)
        · exact ⟨vtx, hl ▸ hy⟩
        · exact ⟨w, hw⟩
    rw [hisBlock, h.cover y, hsplit, FreePool.release]
    simp only [List.mem_cons, List.mem_append]
    exact cover_unlink
  · intro y hy
    refine ⟨fun hin => ?_, fun w hw hin => h.disjoint vtx w (Ne.symm hw) y (hmem y hy) hin⟩
    rcases List.mem_cons.mp hin with hyx | hin
    · exact hne y hy hyx
    · exact h.notMem_stack vtx y (hmem y hy) hin
  · intro w hw y hy hin
    rcases List.mem_cons.mp hin with rfl | hin
    · exact h.disjoint w vtx hw y hy hx
    · exact h.notMem_stack w y hy hin
  · simpa using hy

end Represents

end Nynn
