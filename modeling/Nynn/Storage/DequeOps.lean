import Nynn.Storage.Deques

/-!
# The list operations are operations of deques

On a storage that represents an abstract state, each of the seven list operations is the operation
of the abstract state with its name: it returns the block number that the pool hands out, or drops
the block that the deque drops, and leaves the other vertices and all contents as they are. A pop
is left out on a list with exactly one block: there the source clears the tail and leaves the head.

Source: `nynn_mm_subgraph_set.h`.

## Main definitions

* `Nynn.Inserted`, `Nynn.Removed`: what an insertion and a removal do.

## Main results

* `Nynn.Represents.push`, `Nynn.Represents.pop` and the lemmas of the other operations.
* `Nynn.Represents.run`: any operation.
-/

namespace Nynn

open Program LinkedRing

variable {c : Config}

/-! ### One operation -/

/-- The operation inserts a block into the list of `vtx`. -/
structure Inserted (s s' : FlatStorage c) (minVtxno : UInt32) (vtx : Fin c.vertexIntervalWidth)
    (d : Deques c) (blk : Block c.blockSz) (l : List UInt32) : Prop where
  represents : Represents s' minVtxno (d.update vtx (d.pool.require c.groupSize).2 l)
  frame : Frame s s' vtx d (d.update vtx (d.pool.require c.groupSize).2 l)
  newBody : Block.SameBody (blk.setSource (minVtxno + UInt32.ofNat vtx.val))
    (s'.blocks (d.pool.require c.groupSize).1)

/-- The operation takes the block `x` out of the list of `vtx` and frees it. -/
structure Removed (s s' : FlatStorage c) (minVtxno : UInt32) (vtx : Fin c.vertexIntervalWidth)
    (d : Deques c) (x : UInt32) (l : List UInt32) : Prop where
  represents : Represents s' minVtxno (d.update vtx (d.pool.release x) l)
  frame : Frame s s' vtx d (d.update vtx (d.pool.release x) l)

namespace Represents

variable {s s' : FlatStorage c} {minVtxno : UInt32} {d : Deques c}
  {vtx : Fin c.vertexIntervalWidth} {l₁ l₂ : List UInt32} {x : UInt32} {disk : CreateOutcome}

/-- A require succeeds also after the size of the vertex was changed. -/
private theorem require_addSize (h : Represents s minVtxno d)
    (hreq : ∃ b s₁, (require disk).run s = (.ok b, s₁)) (vtx : Fin c.vertexIntervalWidth)
    (blk : Block c.blockSz) :
    ∃ s₁, (require disk).run (s.addSize vtx blk) = (.ok (d.pool.require c.groupSize).1, s₁) ∧
      Required (s.addSize vtx blk) s₁ d.pool (d.pool.require c.groupSize).2
        (d.pool.require c.groupSize).1 := by
  obtain ⟨b, s₁, hrun⟩ := hreq
  refine (h.refines.setVertex vtx _).require_of_canGrow disk fun hstack => ?_
  have hgrow := h.refines.canGrow hrun hstack
  exact ⟨hgrow.le_supBlkno, hgrow.le_blknoMax, hgrow.no_file, hgrow.disk_ok⟩

/-- The size of the vertex may also be changed after the require. -/
private theorem required_addSize {p p' : FreePool} (hreq : Required s s' p p' x)
    (vtx : Fin c.vertexIntervalWidth) (blk : Block c.blockSz) :
    Required (s.addSize vtx blk) (s'.addSize vtx blk) p p' x where
  refines := hreq.refines.setVertex vtx _
  nodup := hreq.nodup
  vertices := by
    rw [Storage.addSize, Storage.addSize, vertices_setVertex, vertices_setVertex, hreq.vertices]
  blocks := hreq.blocks
  isBlock_iff := hreq.isBlock_iff
  stack_subset := hreq.stack_subset
  fresh := hreq.fresh

/-- The blocks of the lists are blocks after a require, too. -/
private theorem isBlock_of_required {blk : Block c.blockSz} {p' : FreePool}
    (h : Represents s minVtxno d) (hreq : Required (s.addSize vtx blk) s' d.pool p' x)
    {b : UInt32} (hb : b ∈ d.lists vtx) : s'.isBlock b = true ∧ s'.blocks b = s.blocks b :=
  ⟨(hreq.isBlock_iff b).mpr (Or.inl (h.isBlock hb)),
    hreq.blocks b (hreq.fresh b (h.isBlock hb) (h.notMem_stack vtx b hb))⟩

private theorem ends_of_required {blk : Block c.blockSz} {p' : FreePool}
    (h : Represents s minVtxno d) (hreq : Required (s.addSize vtx blk) s' d.pool p' x) :
    (s'.superblk.vertices vtx).headBlkno = after invalidBlkno (d.lists vtx) ∧
      (s'.superblk.vertices vtx).tailBlkno = before invalidBlkno (d.lists vtx) := by
  have hvertex : s'.superblk.vertices vtx = (s.superblk.vertices vtx).resize
      ((s.superblk.vertices vtx).size + blk.contentSize) := by
    rw [hreq.vertices]
    exact Function.update_self ..
  rw [hvertex]
  exact ⟨h.headBlkno vtx, h.tailBlkno vtx⟩

theorem push (h : Represents s minVtxno d)
    (hreq : ∃ b s₁, (require disk).run s = (.ok b, s₁)) (vtx : Fin c.vertexIntervalWidth)
    (blk : Block c.blockSz) :
    ∃ s', (Nynn.push disk (minVtxno + UInt32.ofNat vtx.val) blk).run s =
        (.ok (d.pool.require c.groupSize).1, s') ∧
      Inserted s s' minVtxno vtx d blk
        (d.lists vtx ++ [(d.pool.require c.groupSize).1]) := by
  obtain ⟨s₁, hrun, hreq⟩ := h.require_addSize hreq vtx blk
  have hl : d.lists vtx = d.lists vtx ++ [] := (List.append_nil _).symm
  obtain ⟨hrep, hframe, hbody⟩ := h.link hl hreq
  have hx : s₁.isBlock (d.pool.require c.groupSize).1 = true :=
    (hreq.isBlock_iff _).mpr (Or.inr List.mem_cons_self)
  have htail := (h.ends_of_required hreq).2
  refine ⟨_, push_run (h.vertexSlot vtx) hrun hx ?_, ?_⟩
  · rw [htail]
    exact (before_mem_lists hl).imp_right fun hmem => (h.isBlock_of_required hreq hmem).1
  · rw [htail]
    exact ⟨hrep, hframe, hbody⟩

theorem unshift (h : Represents s minVtxno d)
    (hreq : ∃ b s₁, (require disk).run s = (.ok b, s₁)) (vtx : Fin c.vertexIntervalWidth)
    (blk : Block c.blockSz) :
    ∃ s', (Nynn.unshift disk (minVtxno + UInt32.ofNat vtx.val) blk).run s =
        (.ok (d.pool.require c.groupSize).1, s') ∧
      Inserted s s' minVtxno vtx d blk
        ((d.pool.require c.groupSize).1 :: d.lists vtx) := by
  obtain ⟨s₁, hrun, hreq⟩ := h.require_addSize hreq vtx blk
  have hl : d.lists vtx = [] ++ d.lists vtx := rfl
  obtain ⟨hrep, hframe, hbody⟩ := h.link hl hreq
  have hx : s₁.isBlock (d.pool.require c.groupSize).1 = true :=
    (hreq.isBlock_iff _).mpr (Or.inr List.mem_cons_self)
  have hhead := (h.ends_of_required hreq).1
  refine ⟨_, unshift_run (h.vertexSlot vtx) hrun hx ?_, ?_⟩
  · rw [hhead]
    exact (after_mem_lists hl).imp_right fun hmem => (h.isBlock_of_required hreq hmem).1
  · rw [hhead]
    exact ⟨hrep, hframe, hbody⟩

/-- The position of a block in a list, by the blocks before and after it. -/
private theorem exists_split {l : List UInt32} (hb : x ∈ l) (hnd : l.Nodup) :
    ∃ l₁ l₂, l = l₁ ++ x :: l₂ ∧ x ∉ l₁ ∧ x ∉ l₂ := by
  obtain ⟨l₁, l₂, rfl⟩ := List.append_of_mem hb
  rw [List.nodup_middle, List.nodup_cons, List.mem_append, not_or] at hnd
  exact ⟨l₁, l₂, rfl, hnd.1.1, hnd.1.2⟩

theorem invalidBlkno_notMem (h : Represents s minVtxno d) (vtx : Fin c.vertexIntervalWidth) :
    invalidBlkno ∉ d.lists vtx := fun hmem => h.ne_invalidBlkno hmem rfl

theorem insertPrev (h : Represents s minVtxno d)
    (hreq : ∃ b s₁, (require disk).run s = (.ok b, s₁)) (vtx : Fin c.vertexIntervalWidth)
    (blk : Block c.blockSz) {nextBlkno : UInt32}
    (hpivot : nextBlkno = invalidBlkno ∨ nextBlkno ∈ d.lists vtx) :
    ∃ s', (Nynn.insertPrev disk (minVtxno + UInt32.ofNat vtx.val) nextBlkno blk).run s =
        (.ok (d.pool.require c.groupSize).1, s') ∧
      Inserted s s' minVtxno vtx d blk
        (insertBefore nextBlkno (d.pool.require c.groupSize).1 (d.lists vtx)) := by
  have hvtx := h.vertexSlot vtx
  have hhead := h.headBlkno vtx
  by_cases hnext : nextBlkno = (s.superblk.vertices vtx).headBlkno
  · -- The pivot is the head, or the list is empty: the insertion is an unshift.
    have hlist : insertBefore nextBlkno (d.pool.require c.groupSize).1 (d.lists vtx) =
        (d.pool.require c.groupSize).1 :: d.lists vtx := by
      rw [hhead, after] at hnext
      cases hl : d.lists vtx with
      | nil => rfl
      | cons b l =>
        rw [hl, List.headD_cons] at hnext
        rw [insertBefore, if_pos hnext.symm]
    rw [hlist, Nynn.insertPrev, Prog.run_bind_of_ok (getVertex_run hvtx),
      Prog.run_bind_of_ok (readVertex_apply ..)]
    simp only [if_pos hnext]
    exact h.unshift hreq vtx blk
  by_cases hinv : nextBlkno = invalidBlkno
  · rw [Nynn.insertPrev, Prog.run_bind_of_ok (getVertex_run hvtx),
      Prog.run_bind_of_ok (readVertex_apply ..)]
    simp only [if_neg hnext, if_pos hinv]
    rw [hinv, insertBefore_of_notMem (h.invalidBlkno_notMem vtx)]
    exact h.push hreq vtx blk
  · have hmem := hpivot.resolve_left hinv
    obtain ⟨l₁, l₂, hl, hnot, -⟩ := exists_split hmem (h.linked vtx).list_nodup
    obtain ⟨b, s₀, hrun⟩ := hreq
    obtain ⟨rfl, hreq₀⟩ := h.refines.require hrun
    have hreq := required_addSize hreq₀ vtx blk
    obtain ⟨hrep, hframe, hbody⟩ := h.link hl hreq
    have hx : s₀.isBlock (d.pool.require c.groupSize).1 = true :=
      (hreq₀.isBlock_iff _).mpr (Or.inr List.mem_cons_self)
    have hkept {y : UInt32} (hy : y ∈ d.lists vtx) := h.isBlock_of_required hreq hy
    have hprev : (s₀.blocks nextBlkno).getPrev = before invalidBlkno l₁ := by
      rw [show s₀.blocks nextBlkno = s.blocks nextBlkno from (hkept hmem).2]
      exact (h.getPrev_getNext hl).1
    -- The pivot is not the head, so there is a block before it.
    have hbefore : before invalidBlkno l₁ ∈ d.lists vtx := by
      refine (before_mem_lists hl).resolve_left fun he => hnext ?_
      have hnil : l₁ = [] := by
        by_contra hne
        have hlast : before invalidBlkno l₁ ∈ l₁ := by
          obtain ⟨l, y, rfl⟩ := List.eq_nil_or_concat l₁ |>.resolve_left hne
          simp [before]
        refine h.invalidBlkno_notMem vtx ?_
        rw [hl, ← he]
        exact List.mem_append_left _ hlast
      rw [hhead, hl, hnil]
      rfl
    refine ⟨_, insertPrev_run hvtx hnext hinv hrun hx (hkept hmem).1 ?_, ?_⟩
    · rw [hprev]
      exact (hkept hbefore).1
    · rw [hl, insertBefore_append hnot, hprev]
      exact ⟨hrep, hframe, hbody⟩

theorem insertNext (h : Represents s minVtxno d)
    (hreq : ∃ b s₁, (require disk).run s = (.ok b, s₁)) (vtx : Fin c.vertexIntervalWidth)
    (blk : Block c.blockSz) {prevBlkno : UInt32}
    (hpivot : prevBlkno = invalidBlkno ∨ prevBlkno ∈ d.lists vtx) :
    ∃ s', (Nynn.insertNext disk (minVtxno + UInt32.ofNat vtx.val) prevBlkno blk).run s =
        (.ok (d.pool.require c.groupSize).1, s') ∧
      Inserted s s' minVtxno vtx d blk
        (if prevBlkno = invalidBlkno then (d.pool.require c.groupSize).1 :: d.lists vtx
        else insertAfter prevBlkno (d.pool.require c.groupSize).1 (d.lists vtx)) := by
  have hvtx := h.vertexSlot vtx
  have htail := h.tailBlkno vtx
  by_cases hprev : prevBlkno = (s.superblk.vertices vtx).tailBlkno
  · -- The pivot is the tail, or the list is empty: the insertion is a push.
    have hlist : (if prevBlkno = invalidBlkno then (d.pool.require c.groupSize).1 :: d.lists vtx
        else insertAfter prevBlkno (d.pool.require c.groupSize).1 (d.lists vtx)) =
          d.lists vtx ++ [(d.pool.require c.groupSize).1] := by
      rw [htail, before] at hprev
      rcases List.eq_nil_or_concat (d.lists vtx) with hl | ⟨l, b, hl⟩
      · rw [hl, List.getLastD_nil] at hprev
        rw [if_pos hprev, hl, List.nil_append]
      · rw [List.concat_eq_append] at hl
        have hnd := (h.linked vtx).list_nodup
        rw [hl, List.getLastD_concat] at hprev
        rw [hl, List.nodup_append] at hnd
        have hb : b ∈ d.lists vtx := by simp [hl]
        have hnot : b ∉ l := fun hmem => hnd.2.2 b hmem b (by simp) rfl
        rw [hprev, if_neg (h.ne_invalidBlkno hb), hl, insertAfter_append hnot,
          List.append_assoc, List.singleton_append]
    rw [hlist, Nynn.insertNext, Prog.run_bind_of_ok (getVertex_run hvtx),
      Prog.run_bind_of_ok (readVertex_apply ..)]
    simp only [if_pos hprev]
    exact h.push hreq vtx blk
  by_cases hinv : prevBlkno = invalidBlkno
  · rw [Nynn.insertNext, Prog.run_bind_of_ok (getVertex_run hvtx),
      Prog.run_bind_of_ok (readVertex_apply ..)]
    simp only [if_neg hprev, if_pos hinv]
    exact h.unshift hreq vtx blk
  · have hmem := hpivot.resolve_left hinv
    obtain ⟨l₁, l₂, hl, hnot, -⟩ := exists_split hmem (h.linked vtx).list_nodup
    have hsnoc : d.lists vtx = (l₁ ++ [prevBlkno]) ++ l₂ := by simpa using hl
    obtain ⟨b, s₀, hrun⟩ := hreq
    obtain ⟨rfl, hreq₀⟩ := h.refines.require hrun
    have hreq := required_addSize hreq₀ vtx blk
    obtain ⟨hrep, hframe, hbody⟩ := h.link hsnoc hreq
    have hx : s₀.isBlock (d.pool.require c.groupSize).1 = true :=
      (hreq₀.isBlock_iff _).mpr (Or.inr List.mem_cons_self)
    have hkept {y : UInt32} (hy : y ∈ d.lists vtx) := h.isBlock_of_required hreq hy
    have hnext : (s₀.blocks prevBlkno).getNext = after invalidBlkno l₂ := by
      rw [show s₀.blocks prevBlkno = s.blocks prevBlkno from (hkept hmem).2]
      exact (h.getPrev_getNext hl).2
    -- The pivot is not the tail, so there is a block after it.
    have hafter : after invalidBlkno l₂ ∈ d.lists vtx := by
      refine (after_mem_lists hsnoc).resolve_left fun he => hprev ?_
      have hnil : l₂ = [] := by
        cases l₂ with
        | nil => rfl
        | cons y l =>
          refine absurd ?_ (h.invalidBlkno_notMem vtx)
          rw [after, List.headD_cons] at he
          rw [hl, he]
          simp
      rw [htail, hsnoc, hnil, List.append_nil, before, List.getLastD_concat]
    have hlast : before invalidBlkno (l₁ ++ [prevBlkno]) = prevBlkno := by
      rw [before, List.getLastD_concat]
    rw [hlast] at hrep hframe hbody
    rw [List.append_assoc, List.singleton_append] at hrep hframe
    refine ⟨_, insertNext_run hvtx hprev hinv hrun hx (hkept hmem).1 ?_, ?_⟩
    · rw [hnext]
      exact (hkept hafter).1
    · rw [if_neg hinv, hl, insertAfter_append hnot, hnext]
      exact ⟨hrep, hframe, hbody⟩

/-- A pop of a list that does not have exactly one block. -/
theorem pop (h : Represents s minVtxno d) {l : List UInt32} (hl : d.lists vtx = l ++ [x])
    (hne : l ≠ []) :
    ∃ s', (Nynn.pop (minVtxno + UInt32.ofNat vtx.val)).run s = (.ok (), s') ∧
      Removed s s' minVtxno vtx d x l := by
  obtain ⟨s', hrun, hrep, hframe⟩ := h.unlink hl
  rw [List.append_nil] at hrep hframe
  have hmem : x ∈ d.lists vtx := by simp [hl]
  have htail : (s.superblk.vertices vtx).tailBlkno = x := by
    rw [h.tailBlkno, hl, before, List.getLastD_concat]
  have hprev : before invalidBlkno l ∈ d.lists vtx := by
    obtain ⟨l', y, rfl⟩ := (List.eq_nil_or_concat l).resolve_left hne
    simp [before, hl]
  refine ⟨s', ?_, hrep, hframe⟩
  rw [pop_run (h.vertexSlot vtx) htail (h.isBlock hmem) (h.getPrev_getNext hl).1
    (h.isBlock hprev)]
  exact hrun

theorem pop_nil (h : Represents s minVtxno d) (hl : d.lists vtx = []) :
    (Nynn.pop (minVtxno + UInt32.ofNat vtx.val)).run s = (.ok (), s) := by
  have htail : (s.superblk.vertices vtx).tailBlkno = invalidBlkno := by
    rw [h.tailBlkno, hl]
    rfl
  rw [Nynn.pop, Prog.run_bind_of_ok (getVertex_run (h.vertexSlot vtx)),
    Prog.run_bind_of_ok (readVertex_apply ..)]
  simp only [if_pos htail, Prog.run_pure]

theorem shift (h : Represents s minVtxno d) {l : List UInt32} (hl : d.lists vtx = x :: l) :
    ∃ s', (Nynn.shift (minVtxno + UInt32.ofNat vtx.val)).run s = (.ok (), s') ∧
      Removed s s' minVtxno vtx d x l := by
  obtain ⟨s', hrun, hrep, hframe⟩ := h.unlink (show d.lists vtx = [] ++ x :: l from hl)
  have hsnoc : d.lists vtx = [x] ++ l := hl
  have hmem : x ∈ d.lists vtx := by simp [hl]
  have hhead : (s.superblk.vertices vtx).headBlkno = x := by
    rw [h.headBlkno, hl, after, List.headD_cons]
  refine ⟨s', ?_, hrep, hframe⟩
  rw [shift_run (h.vertexSlot vtx) hhead (h.isBlock hmem)
    (h.getPrev_getNext (show d.lists vtx = [] ++ x :: l from hl)).2 ((after_mem_lists hsnoc).imp_right h.isBlock)]
  exact hrun

theorem shift_nil (h : Represents s minVtxno d) (hl : d.lists vtx = []) :
    (Nynn.shift (minVtxno + UInt32.ofNat vtx.val)).run s = (.ok (), s) := by
  have hhead : (s.superblk.vertices vtx).headBlkno = invalidBlkno := by
    rw [h.headBlkno, hl]
    rfl
  rw [Nynn.shift, Prog.run_bind_of_ok (getVertex_run (h.vertexSlot vtx)),
    Prog.run_bind_of_ok (readVertex_apply ..)]
  simp only [if_pos hhead, Prog.run_pure]

theorem remove (h : Represents s minVtxno d) (hmem : x ∈ d.lists vtx) :
    ∃ s', (Nynn.remove (minVtxno + UInt32.ofNat vtx.val) x).run s = (.ok (), s') ∧
      Removed s s' minVtxno vtx d x ((d.lists vtx).erase x) := by
  obtain ⟨l₁, l₂, hl, hnot₁, hnot₂⟩ := exists_split hmem (h.linked vtx).list_nodup
  have herase : (d.lists vtx).erase x = l₁ ++ l₂ := by
    rw [hl, List.erase_append_right _ hnot₁, List.erase_cons_head]
  have hvtx := h.vertexSlot vtx
  have hhead := h.headBlkno vtx
  have htail := h.tailBlkno vtx
  have hheadne : (s.superblk.vertices vtx).headBlkno ≠ invalidBlkno := by
    rw [hhead]
    intro he
    cases hd : d.lists vtx with
    | nil => simp [hd] at hmem
    | cons b l =>
      rw [hd, after, List.headD_cons] at he
      exact h.invalidBlkno_notMem vtx (by simp [hd, he])
  rw [herase]
  by_cases hfirst : (s.superblk.vertices vtx).headBlkno = x
  · -- The head is shifted out.
    have hnil : l₁ = [] := by
      cases l₁ with
      | nil => rfl
      | cons b l =>
        rw [hhead, hl, after, List.cons_append, List.headD_cons] at hfirst
        simp [hfirst] at hnot₁
    rw [hnil, List.nil_append] at hl ⊢
    obtain ⟨s', hrun, hrem⟩ := h.shift hl
    refine ⟨s', ?_, hrem⟩
    rw [Nynn.remove, Prog.run_bind_of_ok (getVertex_run hvtx),
      Prog.run_bind_of_ok (readVertex_apply ..)]
    simp only [if_neg hheadne, if_pos hfirst]
    exact hrun
  have hne₁ : l₁ ≠ [] := by
    rintro rfl
    exact hfirst (by rw [hhead, hl, after, List.nil_append, List.headD_cons])
  by_cases hlast : (s.superblk.vertices vtx).tailBlkno = x
  · -- The tail of a list with two blocks or more is popped.
    have hnil : l₂ = [] := by
      rcases List.eq_nil_or_concat l₂ with hnil | ⟨l, b, rfl⟩
      · exact hnil
      · rw [htail, hl, before, List.concat_eq_append, ← List.cons_append, ← List.append_assoc,
          List.getLastD_concat] at hlast
        simp [hlast] at hnot₂
    rw [hnil] at hl
    obtain ⟨s', hrun, hrem⟩ := h.pop hl hne₁
    rw [hnil, List.append_nil]
    refine ⟨s', ?_, hrem⟩
    rw [Nynn.remove, Prog.run_bind_of_ok (getVertex_run hvtx),
      Prog.run_bind_of_ok (readVertex_apply ..)]
    simp only [if_neg hheadne, if_neg hfirst, if_pos hlast]
    exact hrun
  · have hne₂ : l₂ ≠ [] := by
      rintro rfl
      exact hlast (by rw [htail, hl, before, List.getLastD_concat])
    obtain ⟨s', hrun, hrep, hframe⟩ := h.unlink hl
    have hprev : before invalidBlkno l₁ ∈ d.lists vtx := by
      obtain ⟨l, y, rfl⟩ := (List.eq_nil_or_concat l₁).resolve_left hne₁
      simp [before, hl]
    have hnext : after invalidBlkno l₂ ∈ d.lists vtx := by
      obtain ⟨y, l, rfl⟩ := List.exists_cons_of_ne_nil hne₂
      simp [after, hl]
    refine ⟨s', ?_, hrep, hframe⟩
    rw [remove_run hvtx hheadne hfirst hlast (h.isBlock hmem) (h.getPrev_getNext hl).1
      (h.getPrev_getNext hl).2 (h.isBlock hprev) (h.isBlock hnext)]
    exact hrun

private theorem run_of_inserted {op : ListOp c.blockSz} {blk : Block c.blockSz}
    {prog : StorageM c AllMapped UInt32} (hnew : op.newBlk = some blk)
    (hvtx : op.vtxno = minVtxno + UInt32.ofNat vtx.val)
    (hop : op.run disk = (do let no ← prog; pure (some no)))
    (hprog : ∃ s', prog.run s = (.ok (d.pool.require c.groupSize).1, s') ∧
      Inserted s s' minVtxno vtx d blk
        (op.listAfter (d.pool.require c.groupSize).1 (d.lists vtx))) :
    ∃ s', (op.run disk).run s = (.ok (op.apply vtx d).1, s') ∧
      Represents s' minVtxno (op.apply vtx d).2 ∧ Frame s s' vtx d (op.apply vtx d).2 ∧
      ∀ blk, op.newBlk = some blk → (blk.setSource op.vtxno).SameBody
        (s'.blocks (d.pool.require c.groupSize).1) := by
  obtain ⟨s', hrun, hrep, hframe, hbody⟩ := hprog
  have happly : op.apply vtx d = (some (d.pool.require c.groupSize).1,
      d.update vtx (d.pool.require c.groupSize).2
        (op.listAfter (d.pool.require c.groupSize).1 (d.lists vtx))) := by
    rw [ListOp.apply, hnew]
  rw [happly, hop, Prog.run_bind_of_ok hrun]
  refine ⟨s', rfl, hrep, hframe, fun blk' hblk' => ?_⟩
  obtain rfl : blk = blk' := Option.some.inj (hnew.symm.trans hblk')
  rw [hvtx]
  exact hbody

private theorem run_of_removed {op : ListOp c.blockSz} {prog : StorageM c AllMapped Unit}
    (hnew : op.newBlk = none) (hop : op.run disk = (do prog; pure none))
    (hdrop : op.dropped (d.lists vtx) = some x)
    (hprog : ∃ s', prog.run s = (.ok (), s') ∧
      Removed s s' minVtxno vtx d x (op.listAfter invalidBlkno (d.lists vtx))) :
    ∃ s', (op.run disk).run s = (.ok (op.apply vtx d).1, s') ∧
      Represents s' minVtxno (op.apply vtx d).2 ∧ Frame s s' vtx d (op.apply vtx d).2 ∧
      ∀ blk, op.newBlk = some blk → (blk.setSource op.vtxno).SameBody
        (s'.blocks (d.pool.require c.groupSize).1) := by
  obtain ⟨s', hrun, hrep, hframe⟩ := hprog
  have happly : op.apply vtx d = (none,
      d.update vtx (d.pool.release x) (op.listAfter invalidBlkno (d.lists vtx))) := by
    rw [ListOp.apply, hnew]
    simp only [hdrop]
  rw [happly, hop, Prog.run_bind_of_ok hrun]
  refine ⟨s', rfl, hrep, hframe, fun blk hblk => ?_⟩
  rw [hnew] at hblk
  cases hblk

private theorem run_of_empty {op : ListOp c.blockSz} {prog : StorageM c AllMapped Unit}
    (h : Represents s minVtxno d) (hnew : op.newBlk = none)
    (hop : op.run disk = (do prog; pure none)) (hdrop : op.dropped (d.lists vtx) = none)
    (hprog : prog.run s = (.ok (), s)) :
    ∃ s', (op.run disk).run s = (.ok (op.apply vtx d).1, s') ∧
      Represents s' minVtxno (op.apply vtx d).2 ∧ Frame s s' vtx d (op.apply vtx d).2 ∧
      ∀ blk, op.newBlk = some blk → (blk.setSource op.vtxno).SameBody
        (s'.blocks (d.pool.require c.groupSize).1) := by
  have happly : op.apply vtx d = (none, d) := by
    rw [ListOp.apply, hnew]
    simp only [hdrop]
  rw [happly, hop, Prog.run_bind_of_ok hprog]
  refine ⟨s, rfl, h, ⟨fun _ _ => rfl, fun _ _ => rfl, fun _ _ _ _ => rfl,
    fun b _ _ => .refl _⟩, fun blk hblk => ?_⟩
  rw [hnew] at hblk
  cases hblk

/-- **One operation.** On a storage that represents an abstract state an operation is the operation
on that state; it leaves the frame, and the block it inserts has the bytes it was handed. -/
theorem run (h : Represents s minVtxno d) {op : ListOp c.blockSz}
    (hvtx : op.vtxno = minVtxno + UInt32.ofNat vtx.val) (hallowed : op.Allowed (d.lists vtx))
    (hpop : op.NotPopLast (d.lists vtx))
    (hreq : op.newBlk.isSome = true → ∃ b s₁, (require disk).run s = (.ok b, s₁)) :
    ∃ s', (op.run disk).run s = (.ok (op.apply vtx d).1, s') ∧
      Represents s' minVtxno (op.apply vtx d).2 ∧ Frame s s' vtx d (op.apply vtx d).2 ∧
      ∀ blk, op.newBlk = some blk → (blk.setSource op.vtxno).SameBody
        (s'.blocks (d.pool.require c.groupSize).1) := by
  cases op with
  | push v blk =>
    obtain rfl : v = minVtxno + UInt32.ofNat vtx.val := hvtx
    exact run_of_inserted rfl rfl rfl (h.push (hreq rfl) vtx blk)
  | unshift v blk =>
    obtain rfl : v = minVtxno + UInt32.ofNat vtx.val := hvtx
    exact run_of_inserted rfl rfl rfl (h.unshift (hreq rfl) vtx blk)
  | insertPrev v pivot blk =>
    obtain rfl : v = minVtxno + UInt32.ofNat vtx.val := hvtx
    exact run_of_inserted rfl rfl rfl (h.insertPrev (hreq rfl) vtx blk hallowed)
  | insertNext v pivot blk =>
    obtain rfl : v = minVtxno + UInt32.ofNat vtx.val := hvtx
    exact run_of_inserted rfl rfl rfl (h.insertNext (hreq rfl) vtx blk hallowed)
  | pop v =>
    obtain rfl : v = minVtxno + UInt32.ofNat vtx.val := hvtx
    rcases List.eq_nil_or_concat (d.lists vtx) with hl | ⟨l, b, hl⟩
    · exact h.run_of_empty rfl rfl (by rw [ListOp.dropped, hl]; rfl) (h.pop_nil hl)
    · rw [List.concat_eq_append] at hl
      have hne : l ≠ [] := by
        rintro rfl
        exact hpop (by rw [hl]; rfl)
      refine run_of_removed rfl rfl (by rw [ListOp.dropped, hl, List.getLast?_concat]) ?_
      rw [ListOp.listAfter, hl, List.dropLast_concat]
      exact h.pop hl hne
  | shift v =>
    obtain rfl : v = minVtxno + UInt32.ofNat vtx.val := hvtx
    cases hl : d.lists vtx with
    | nil => exact h.run_of_empty rfl rfl (by rw [ListOp.dropped, hl]; rfl) (h.shift_nil hl)
    | cons b l =>
      refine run_of_removed rfl rfl (by rw [ListOp.dropped, hl]; rfl) ?_
      rw [ListOp.listAfter, hl, List.tail_cons]
      exact h.shift hl
  | remove v b =>
    obtain rfl : v = minVtxno + UInt32.ofNat vtx.val := hvtx
    exact run_of_removed rfl rfl rfl (h.remove hallowed)

end Represents

end Nynn
