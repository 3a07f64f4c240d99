import Nynn.Storage.Exceptions
import Nynn.Storage.FailedInsertions

/-!
# Stale block numbers

Clients name blocks by number, and a number may be stale: the block was freed meanwhile, belongs to
another vertex, or was never made. No operation checks that a block belongs to the vertex it is
called for; the source that a block header has is written and never read. A stale number therefore
goes unnoticed unless something else ends the call before it is used: `remove` returns on a vertex
without blocks, and `insertPrev` and `insertNext` throw when no block is found for the new data.

Source: `nynn_mm_subgraph_set.h`, `ProducerDaemon.cpp`.

## Main definitions

* `Nynn.ListOp.NamesStale`: the operation names a block that is not in the list of its vertex.
* `Nynn.Harmless`: the operation throws or returns without effect.

## Main results

* `Nynn.harmless_iff_of_stale`: when an operation that names a stale block is harmless.
-/

namespace Nynn

open Program LinkedRing

variable {c : Config}

/-- The operation names a block that is not in the list of its vertex. -/
def ListOp.NamesStale {z : BlockSz} : ListOp z → List UInt32 → Prop
  | insertPrev _ nextBlkno _, l => nextBlkno ≠ invalidBlkno ∧ nextBlkno ∉ l
  | insertNext _ prevBlkno _, l => prevBlkno ≠ invalidBlkno ∧ prevBlkno ∉ l
  | remove _ blkno, l => blkno ∉ l
  | push _ _, _ | unshift _ _, _ | pop _, _ | shift _, _ => False

/-- The operation throws or returns without effect. -/
def Harmless (s : FlatStorage c) (minVtxno : UInt32) (op : ListOp c.blockSz)
    (disk : CreateOutcome) : Prop :=
  ∀ r s', (op.run disk).run s = (r, s') → Unchanged s s' minVtxno ∧
    ((∃ what, r = .error (.exception what)) ∨ ((∃ a, r = .ok a) ∧ s'.superblk = s.superblk))

/-! ### Removals -/

section Removals

variable {s s' : FlatStorage c} {vtx : Fin c.vertexIntervalWidth} {v b : UInt32}

private theorem triple_of_keeps {α : Type} {x : StorageM c AllMapped α}
    (hx : Keeps Storage.superblk x) (n : UInt32) :
    Triple (fun s : FlatStorage c => s.superblk.numOfFreeBlks = n) x
      (fun _ s => s.superblk.numOfFreeBlks = n) fun _ => True :=
  .of_keeps (hx.comp SuperBlock.numOfFreeBlks) n

/-- A release that returns adds to the number of free blocks. -/
private theorem numOfFreeBlks_release (n : UInt32) (b : UInt32) :
    Triple (fun s : FlatStorage c => s.superblk.numOfFreeBlks = n)
      (release b : StorageM c AllMapped Unit) (fun _ s => s.superblk.numOfFreeBlks = n + 1)
      fun _ => True := by
  have hinc : Triple (fun s => s.superblk.numOfFreeBlks = n)
      (incNumberOfFreeBlks : StorageM c AllMapped Unit)
      (fun _ s => s.superblk.numOfFreeBlks = n + 1) fun _ => True :=
    .modify fun s hs => by rw [← hs]
  refine .get_bind fun s hs => .mono (.bind (triple_of_keeps (keeps_getBlock b) n) fun p => ?_)
    (fun _ e => e ▸ hs) fun _ _ => id
  cases p with
  | none => exact .fail trivial
  | some p =>
    have hput (newHead : Bool) : Triple (fun s => s.superblk.numOfFreeBlks = n) (
        if newHead then do
          modifyBlock (some p) Block.initIndexBlock
          pushIndex (some p) s.superblk.headBlkno
          setHeadBlkno b
          incNumberOfFreeBlks
        else do
          let headBlk ← getBlock s.superblk.headBlkno
          pushIndex headBlk b
          incNumberOfFreeBlks : StorageM c AllMapped Unit)
        (fun _ s => s.superblk.numOfFreeBlks = n + 1) fun _ => True := by
      refine .ite (fun _ => ?_) fun _ => ?_
      · exact .bind (triple_of_keeps (keeps_modifyBlock _ _) n) fun _ =>
          .bind (triple_of_keeps (keeps_pushIndex _ _) n) fun _ =>
          .bind (.modify (Q := fun _ s => s.superblk.numOfFreeBlks = n) fun _ hs => hs)
          fun _ => hinc
      · exact .bind (triple_of_keeps (keeps_getBlock _) n) fun q =>
          .bind (triple_of_keeps (keeps_pushIndex q _) n) fun _ => hinc
    exact .ite (fun _ => hput true) fun _ => .bind (triple_of_keeps (keeps_getBlock _) n) fun q =>
      .bind (triple_of_keeps (keeps_deref q) n) fun blk => hput blk.isAtTop

/-- A remove of a block that is at no end of the list, if it returns, frees the block. -/
private theorem numOfFreeBlks_remove
    (hvtx : vertexSlot s.superblk.getMinVtxno v = vtx.val)
    (hnone : (s.superblk.vertices vtx).headBlkno ≠ invalidBlkno)
    (hhead : (s.superblk.vertices vtx).headBlkno ≠ b)
    (htail : (s.superblk.vertices vtx).tailBlkno ≠ b) (hrun : (remove v b).run s = (.ok (), s')) :
    s'.superblk.numOfFreeBlks = s.superblk.numOfFreeBlks + 1 := by
  rw [remove, Prog.run_bind_of_ok (getVertex_run hvtx),
    Prog.run_bind_of_ok (readVertex_apply ..)] at hrun
  dsimp only at hrun
  rw [if_neg hnone, if_neg hhead, if_neg htail] at hrun
  obtain ⟨n, hn⟩ : ∃ n, n = s.superblk.numOfFreeBlks := ⟨_, rfl⟩
  rw [← hn]
  refine Triple.of_ok (Q := fun _ t => t.superblk.numOfFreeBlks = n + 1)
    (.bind (triple_of_keeps (keeps_getBlock b) n) fun p =>
    .bind (triple_of_keeps (keeps_deref p) n) fun blk =>
    .bind (.modify (Q := fun _ t => t.superblk.numOfFreeBlks = n) fun _ ht => ht)
    fun _ => ?_) hn.symm hrun
  exact .bind (triple_of_keeps (keeps_getBlock _) n) fun q =>
    .bind (triple_of_keeps (keeps_modifyBlock q _) n) fun _ =>
    .bind (triple_of_keeps (keeps_getBlock _) n) fun q' =>
    .bind (triple_of_keeps (keeps_modifyBlock q' _) n) fun _ => numOfFreeBlks_release n b

end Removals

/-! ### Insertions -/

section Insertions

variable {s s' s₁ : FlatStorage c} {vtx : Fin c.vertexIntervalWidth} {v b x : UInt32}
  {blk : Block c.blockSz} {disk : CreateOutcome}

/-- What `insertPrev` and `insertNext` do once they have a block `x`: the size, the link of the
block `b` that was named, the link of the other neighbour, whose number `other` reads in `b`, and
the new block. -/
private def insertAt (vtx : Fin c.vertexIntervalWidth) (f : Vertex → Vertex) (b x : UInt32)
    (other : Block c.blockSz → UInt32) (near far : Block c.blockSz → Block c.blockSz)
    (new : UInt32 → Block c.blockSz) : StorageM c AllMapped UInt32 := do
  modifyVertex vtx f
  let nearBlk ← getBlock b
  let blk ← deref nearBlk
  modifyBlock nearBlk near
  let farBlk ← getBlock (other blk)
  modifyBlock farBlk far
  writeBlock x (new (other blk))
  pure x

private theorem triple_writeBlock {s₀ : FlatStorage c} (hx : s₀.isBlock x = true)
    (blk : Block c.blockSz) :
    Triple (SameFiles s₀) (writeBlock x blk : StorageM c AllMapped Unit) (fun _ => SameFiles s₀)
      Fault.NotException := by
  refine .bind (FlatStorage.getsBlocks s₀ x) fun p => ?_
  rw [hx]
  cases p with
  | none => exact .of_forall (fun _ hs => hs.2) nofun
  | some p => exact (triple_assign _ _).mono (fun _ hs => hs.1) fun _ _ => id

/-- No failure is an exception. -/
private theorem triple_insertAt {s₀ : FlatStorage c} (hx : s₀.isBlock x = true)
    (f : Vertex → Vertex) (other : Block c.blockSz → UInt32)
    (near far : Block c.blockSz → Block c.blockSz) (new : UInt32 → Block c.blockSz) :
    Triple (SameFiles s₀) (insertAt vtx f b x other near far new) (fun _ => SameFiles s₀)
      Fault.NotException := by
  have hget (n : UInt32) : Triple (SameFiles s₀) (getBlock n : StorageM c AllMapped _)
      (fun _ => SameFiles s₀) Fault.NotException :=
    (FlatStorage.getsBlocks s₀ n).mono (fun _ => id) fun _ _ hs => hs.1
  refine .bind (triple_modifyVertex vtx f) fun _ => .bind (hget b) fun p =>
    .bind ((triple_deref p).mono (fun _ => id) fun _ _ hs => hs.1) fun blk => ?_
  exact .bind (triple_modifyBlock p near) fun _ => .bind (hget _) fun q =>
    .bind (triple_modifyBlock q far) fun _ => .bind (triple_writeBlock hx _) fun _ =>
    .pure fun _ => id

/-- The superblock fields of the allocator. -/
private def Storage.allocator (s : FlatStorage c) : UInt32 × UInt32 :=
  (s.superblk.numOfFreeBlks, s.superblk.supBlkno)

private theorem keeps_insertAt (f : Vertex → Vertex) (other : Block c.blockSz → UInt32)
    (near far : Block c.blockSz → Block c.blockSz) (new : UInt32 → Block c.blockSz) :
    Keeps Storage.allocator (insertAt vtx f b x other near far new) := by
  have hkeeps {α : Type} {y : StorageM c AllMapped α} (hy : Keeps Storage.superblk y) :
      Keeps Storage.allocator y := hy.comp fun sb => (sb.numOfFreeBlks, sb.supBlkno)
  have hwrite (blk : Block c.blockSz) :
      Keeps Storage.superblk (writeBlock x blk : StorageM c AllMapped Unit) := by
    refine Keeps.bind (keeps_getBlock x) fun p => ?_
    cases p with
    | none => exact Keeps.fail _
    | some p => exact keeps_assign _ _
  refine Keeps.bind (Keeps.modify fun _ => rfl) fun _ => hkeeps ?_
  exact Keeps.bind (keeps_getBlock b) fun p => Keeps.bind (keeps_deref p) fun blk =>
    Keeps.bind (keeps_modifyBlock p near) fun _ => Keeps.bind (keeps_getBlock _) fun q =>
    Keeps.bind (keeps_modifyBlock q far) fun _ => Keeps.bind (hwrite _) fun _ => Keeps.pure _

/-- A require that succeeds is seen in the superblock. -/
private theorem allocator_require {stack : List UInt32} (h : FreeBlocks s stack)
    (hreq : (require disk).run s = (.ok x, s₁)) : s₁.allocator ≠ s.allocator := by
  intro hsame
  rw [Storage.allocator, Storage.allocator, Prod.mk.injEq] at hsame
  cases stack with
  | nil =>
    cases h.groupOutcome hreq with
    | made _ hsup =>
      have hpos := c.groupSize_pos
      rw [hsame.2] at hsup
      omega
  | cons top stack =>
    obtain ⟨s₂, hreq₂, hfree, -⟩ := require_cons disk h.free
    rw [hreq, Prod.mk.injEq] at hreq₂
    obtain ⟨-, rfl⟩ := hreq₂
    have hcount := hfree.count.symm.trans (hsame.1.trans h.free.count)
    rw [List.length_cons, UInt32.ofNat_add] at hcount
    have hone : (0 : UInt32) = UInt32.ofNat 1 :=
      (UInt32.add_right_inj _).mp ((UInt32.add_zero _).trans hcount)
    exact absurd hone (by decide)

/-- An insertion at a block that is no end of the list of its vertex. -/
private theorem run_insert {op : ListOp c.blockSz} {l : List UInt32}
    (hl : IsVertexList s op.vtxno l) (hvtx : vertexSlot s.superblk.getMinVtxno op.vtxno = vtx.val)
    (hnew : op.newBlk = some blk) (hstale : op.NamesStale l)
    (hreq : (require disk).run s = (.ok x, s₁)) (hx : s₁.isBlock x = true) :
    ∃ f b other near far new, (op.run disk).run s =
      (insertAt vtx f b x other near far new >>= fun no => pure (some no)).run s₁ := by
  have hxne := ne_invalidBlkno_of_isBlock hx
  cases op with
  | push | unshift => exact hstale.elim
  | pop | shift | remove => cases hnew
  | insertPrev v pivot blk =>
    have hslot : vertexSlot s.superblk.getMinVtxno v = vtx.val := hvtx
    have hhead : pivot ≠ (s.superblk.vertices vtx).headBlkno := fun e =>
      hstale.2 (List.mem_of_head? ((ends_of_isVertexList hl hvtx pivot hstale.1).1.mp e))
    refine ⟨fun v => v.resize (v.size + blk.contentSize), pivot, Block.getPrev,
      (Block.setPrev · x), (Block.setNext · x),
      fun prevBlkno => ((blk.setSource v).setNext pivot).setPrev prevBlkno, ?_⟩
    have hinsert : (insertPrev disk v pivot blk).run s = (insertAt vtx
        (fun v => v.resize (v.size + blk.contentSize)) pivot x Block.getPrev (Block.setPrev · x)
        (Block.setNext · x)
        fun prevBlkno => ((blk.setSource v).setNext pivot).setPrev prevBlkno).run s₁ := by
      rw [insertPrev, Prog.run_bind_of_ok (getVertex_run hslot),
        Prog.run_bind_of_ok (readVertex_apply ..)]
      dsimp only
      rw [if_neg hhead, if_neg hstale.1, Prog.run_bind_of_ok hreq, if_neg hxne]
      rfl
    rw [ListOp.run, Prog.run_bind, hinsert, ← Prog.run_bind]
  | insertNext v pivot blk =>
    have hslot : vertexSlot s.superblk.getMinVtxno v = vtx.val := hvtx
    have htail : pivot ≠ (s.superblk.vertices vtx).tailBlkno := fun e =>
      hstale.2 (List.mem_of_getLast? ((ends_of_isVertexList hl hvtx pivot hstale.1).2.mp e))
    refine ⟨fun v => v.resize (v.size + blk.contentSize), pivot, Block.getNext,
      (Block.setNext · x), (Block.setPrev · x),
      fun nextBlkno => ((blk.setSource v).setNext nextBlkno).setPrev pivot, ?_⟩
    have hinsert : (insertNext disk v pivot blk).run s = (insertAt vtx
        (fun v => v.resize (v.size + blk.contentSize)) pivot x Block.getNext (Block.setNext · x)
        (Block.setPrev · x)
        fun nextBlkno => ((blk.setSource v).setNext nextBlkno).setPrev pivot).run s₁ := by
      rw [insertNext, Prog.run_bind_of_ok (getVertex_run hslot),
        Prog.run_bind_of_ok (readVertex_apply ..)]
      dsimp only
      rw [if_neg htail, if_neg hstale.1, Prog.run_bind_of_ok hreq, if_neg hxne]
      rfl
    rw [ListOp.run, Prog.run_bind, hinsert, ← Prog.run_bind]

/-- An insertion that finds a block for its data is not harmless. -/
private theorem requireFails_of_harmless {op : ListOp c.blockSz} {l stack : List UInt32}
    {minVtxno : UInt32} (hfree : FreeBlocks s stack) (hl : IsVertexList s op.vtxno l)
    (hvtx : vertexSlot s.superblk.getMinVtxno op.vtxno = vtx.val) (hnew : op.newBlk = some blk)
    (hstale : op.NamesStale l) (hharmless : Harmless s minVtxno op disk) :
    RequireFails s disk := by
  intro x s₁ hreq
  exfalso
  obtain ⟨stack', -, hx, -⟩ := hfree.require hreq
  obtain ⟨f, b, other, near, far, new, hrun⟩ := run_insert hl hvtx hnew hstale hreq hx
  have htriple : Triple (SameFiles s₁)
      (insertAt vtx f b x other near far new >>= fun no => pure (some no)) (fun _ => SameFiles s₁)
      Fault.NotException :=
    .bind (triple_insertAt hx f other near far new) fun _ => .pure fun _ => id
  have hkeeps : Keeps Storage.allocator
      (insertAt vtx f b x other near far new >>= fun no => pure (some no)) :=
    Keeps.bind (keeps_insertAt f other near far new) fun _ => Keeps.pure _
  rcases hrun' : (op.run disk).run s with ⟨e | r, s'⟩
  · obtain ⟨-, ⟨what, he⟩ | ⟨⟨a, ha⟩, -⟩⟩ := hharmless _ _ hrun'
    · have hnot := htriple.of_error ⟨rfl, rfl, rfl⟩ (hrun.symm.trans hrun')
      rw [Except.error.inj he] at hnot
      exact hnot
    · cases ha
  · obtain ⟨-, ⟨what, he⟩ | ⟨-, hsuper⟩⟩ := hharmless _ _ hrun'
    · cases he
    · refine allocator_require hfree hreq ?_
      rw [← hkeeps.of_run (hrun.symm.trans hrun'), Storage.allocator, Storage.allocator, hsuper]

end Insertions

/-! ### Stale numbers -/

/-- An insertion at a stale block requires its block first. -/
private theorem not_resizesFirst {z : BlockSz} {op : ListOp z} {l : List UInt32}
    (hstale : op.NamesStale l) : ¬op.ResizesFirst l := by
  cases op with
  | push | unshift => exact hstale.elim
  | pop | shift | remove => exact id
  | insertPrev v pivot blk =>
    rintro (hinv | hhead)
    · exact hstale.1 hinv
    · exact hstale.2 (List.mem_of_head? hhead)
  | insertNext v pivot blk =>
    rintro (hinv | htail)
    · exact hstale.1 hinv
    · exact hstale.2 (List.mem_of_getLast? htail)

/-- A remove of a stale block. -/
private theorem harmless_remove_iff {s : FlatStorage c} {minVtxno v b : UInt32} {l : List UInt32}
    {disk : CreateOutcome} {vtx : Fin c.vertexIntervalWidth} (hl : IsVertexList s v l)
    (hvtx : vertexSlot s.superblk.getMinVtxno v = vtx.val) (hb : b ∉ l) :
    Harmless s minVtxno (.remove v b) disk ↔ l = [] := by
  have hnone : (s.superblk.vertices vtx).headBlkno = invalidBlkno ↔ l = [] := by
    rw [← hl.head_invalid_iff, getHeadBlkno_run hvtx]
    simp
  constructor
  · intro hharmless
    by_contra hne
    have hends {a : UInt32} (ha : a ∈ l) : a ≠ b := fun e => hb (e ▸ ha)
    have hheadinv : (s.superblk.vertices vtx).headBlkno ≠ invalidBlkno := mt hnone.mp hne
    have htailinv : (s.superblk.vertices vtx).tailBlkno ≠ invalidBlkno := fun e =>
      hne (hl.tail_invalid_iff.mp (by rw [getTailBlkno_run hvtx, e]))
    have hheadne := hends (List.mem_of_head? ((ends_of_isVertexList hl hvtx _ hheadinv).1.mp rfl))
    have htailne :=
      hends (List.mem_of_getLast? ((ends_of_isVertexList hl hvtx _ htailinv).2.mp rfl))
    rcases hrun : (remove v b).run s with ⟨e | u, s'⟩
    · have hop : ((ListOp.remove v b).run disk).run s = (.error e, s') :=
        Prog.run_bind_of_error hrun
      obtain ⟨-, ⟨what, he⟩ | ⟨⟨a, ha⟩, -⟩⟩ := hharmless _ _ hop
      · have hnot := (triple_remove (FlatStorage.getsBlocks s) v b).of_error ⟨rfl, rfl, rfl⟩ hrun
        rw [Except.error.inj he] at hnot
        exact hnot
      · cases ha
    · have hop : ((ListOp.remove v b).run disk).run s = (.ok none, s') := by
        rw [ListOp.run, Prog.run_bind_of_ok hrun, Prog.run_pure]
      obtain ⟨-, ⟨what, he⟩ | ⟨-, hsuper⟩⟩ := hharmless _ _ hop
      · cases he
      · have hcount := numOfFreeBlks_remove hvtx hheadinv hheadne htailne hrun
        rw [hsuper] at hcount
        have hone : (0 : UInt32) = 1 :=
          (UInt32.add_right_inj _).mp ((UInt32.add_zero _).trans hcount)
        exact absurd hone (by decide)
  · intro hnil r s' hop
    have hrun : (remove v b).run s = (.ok (), s) := by
      rw [remove, Prog.run_bind_of_ok (getVertex_run hvtx),
        Prog.run_bind_of_ok (readVertex_apply ..)]
      dsimp only
      rw [if_pos (hnone.mpr hnil), Prog.run_pure]
    rw [ListOp.run, Prog.run_bind_of_ok hrun, Prog.run_pure, Prod.mk.injEq] at hop
    obtain ⟨rfl, rfl⟩ := hop
    exact ⟨.refl s minVtxno, Or.inr ⟨⟨none, rfl⟩, rfl⟩⟩

/-- An insertion at a stale block. -/
private theorem harmless_insert_iff {s : FlatStorage c} {minVtxno : UInt32}
    {op : ListOp c.blockSz} {blk : Block c.blockSz} {l stack : List UInt32} {disk : CreateOutcome}
    {vtx : Fin c.vertexIntervalWidth} (hfree : FreeBlocks s stack)
    (hl : IsVertexList s op.vtxno l) (hvtx : vertexSlot s.superblk.getMinVtxno op.vtxno = vtx.val)
    (hnew : op.newBlk = some blk) (hstale : op.NamesStale l) :
    Harmless s minVtxno op disk ↔ RequireFails s disk ∧ ¬WrapsAround s disk minVtxno := by
  have hlater := not_resizesFirst hstale
  constructor
  · intro hharmless
    have hfails := requireFails_of_harmless hfree hl hvtx hnew hstale hharmless
    obtain ⟨rfl, e, s₁, hreq⟩ := exists_error_of_requireFails hfree hfails
    have hop := ListOp.run_error (ends_of_isVertexList hl hvtx) hvtx hnew (fun h => absurd h hlater) fun _ => hreq
    refine ⟨hfails, fun hwraps => ?_⟩
    exact not_unchanged_of_wrapsAround hfree rfl rfl (hfree.groupOutcome hreq) hwraps
      (hharmless _ _ hop).1
  · rintro ⟨hfails, hwraps⟩ r s' hrun
    obtain ⟨rfl, e, s₁, hreq⟩ := exists_error_of_requireFails hfree hfails
    have hop := ListOp.run_error (ends_of_isVertexList hl hvtx) hvtx hnew (fun h => absurd h hlater) fun _ => hreq
    have hout := hfree.groupOutcome hreq
    rw [hop, Prod.mk.injEq] at hrun
    obtain ⟨rfl, rfl⟩ := hrun
    refine ⟨unchanged_of_groupOutcome hfree hout hwraps, Or.inl ?_⟩
    cases hout with
    | refused | leftFile | beyond => exact ⟨_, rfl⟩

/-- **Stale block numbers.** On a well-formed subgraph, an operation that names a block that is not
in the list of its vertex throws or returns without effect if and only if it is a remove on a vertex
without blocks, or an insertion whose require fails, with no numbers of the next group past
`2 ^ 32`. -/
theorem harmless_iff_of_stale {s : FlatStorage c} {minVtxno : UInt32} {op : ListOp c.blockSz}
    {l : List UInt32} {disk : CreateOutcome} (h : WellFormed s minVtxno)
    (hkey : subgraphKey c op.vtxno = minVtxno) (hl : ReadsList s op.vtxno l)
    (hstale : op.NamesStale l) :
    Harmless s minVtxno op disk ↔
      if op.newBlk = none then l = []
      else RequireFails s disk ∧ ¬WrapsAround s disk minVtxno := by
  obtain ⟨stack, hfree⟩ := h.free
  obtain ⟨l', hlist⟩ := h.lists op.vtxno hkey
  obtain rfl := hlist.reads.unique hl
  obtain ⟨vtx, hvtx, -⟩ := hl.exists_walk
  cases hnew : op.newBlk with
  | some blk =>
    rw [if_neg nofun]
    exact harmless_insert_iff hfree hlist hvtx hnew hstale
  | none =>
    rw [if_pos rfl]
    cases op with
    | remove v b => exact harmless_remove_iff hlist hvtx hstale
    | pop | shift => exact hstale.elim
    | push | unshift | insertPrev | insertNext => cases hnew

/-- In the small subgraph a remove on the vertex `1`, which has no blocks, of a block of the
vertex `0`. -/
theorem harmless_iff_of_stale_small : Harmless smallPushedTwice 0 (.remove 1 0) .ok := by
  obtain ⟨given, hrun⟩ := smallPushedTwice_run
  have hl : ReadsList smallPushedTwice
      (ListOp.remove 1 0 : ListOp Config.small.blockSz).vtxno [] := ⟨1, by decide +kernel⟩
  exact (harmless_iff_of_stale (hrun.wellFormed (by decide)) (by decide) hl nofun).mpr rfl

/-- The small subgraph after list operations. -/
def smallAfter (ops : List (ListOp Config.small.blockSz)) : FlatStorage Config.small :=
  ops.foldl (fun s op => ((op.run .ok).run s).2) (format AllMapped.allMapped 0).2

private theorem smallAfter_append (ops : List (ListOp Config.small.blockSz))
    (op : ListOp Config.small.blockSz) :
    smallAfter (ops ++ [op]) = ((op.run .ok).run (smallAfter ops)).2 := by
  rw [smallAfter, List.foldl_append]
  rfl

/-- Three blocks are pushed to the vertex `0`, and the middle one is removed. -/
def removedOnce : List (ListOp Config.small.blockSz) :=
  [.push 0 0, .push 0 0, .push 0 0, .remove 0 1]

private theorem smallAfter_next {ops : List (ListOp Config.small.blockSz)}
    {op : ListOp Config.small.blockSz} {l : List UInt32}
    (h : ∃ given, SubgraphRun ListOp.NotPopLast 0 (smallAfter ops) given)
    (hkey : subgraphKey Config.small op.vtxno = 0) (hl : ReadsList (smallAfter ops) op.vtxno l)
    (hallowed : op.Allowed l) (hlast : op.NotPopLast l)
    (hreq : op.newBlk.isSome = true → ∃ b s₁, (require .ok).run (smallAfter ops) = (.ok b, s₁)) :
    ∃ given, SubgraphRun ListOp.NotPopLast 0 (smallAfter (ops ++ [op])) given := by
  obtain ⟨given, h⟩ := h
  rw [smallAfter_append]
  exact ⟨_, h.next hkey hl hallowed hlast hreq⟩

private theorem smallAfter_push {ops : List (ListOp Config.small.blockSz)} {l : List UInt32}
    {b : UInt32} (hl : ((readAllBlknos 4 0).run (smallAfter ops)).1 = .ok (some l))
    (hb : ((require .ok).run (smallAfter ops)).1 = .ok b)
    (h : ∃ given, SubgraphRun ListOp.NotPopLast 0 (smallAfter ops) given) :
    ∃ given, SubgraphRun ListOp.NotPopLast 0 (smallAfter (ops ++ [.push 0 0])) given := by
  have hl' : ReadsList (smallAfter ops)
      (ListOp.push 0 0 : ListOp Config.small.blockSz).vtxno l := ⟨4, hl⟩
  exact smallAfter_next h (by decide) hl' trivial trivial fun _ => ⟨b, _, Prod.ext hb rfl⟩

private theorem smallAfter_pushed :
    ∃ given, SubgraphRun ListOp.NotPopLast 0 (smallAfter [.push 0 0, .push 0 0, .push 0 0])
      given := by
  have h₀ : SubgraphRun ListOp.NotPopLast 0 (smallAfter []) fun _ => 0 :=
    .format _ (Prod.ext (by decide +kernel) rfl)
  have h₁ := smallAfter_push (l := []) (b := 0) (by decide +kernel) (by decide +kernel) ⟨_, h₀⟩
  have h₂ := smallAfter_push (l := [0]) (b := 1) (by decide +kernel) (by decide +kernel) h₁
  exact smallAfter_push (l := [0, 1]) (b := 2) (by decide +kernel) (by decide +kernel) h₂

private theorem smallAfter_pushed_list :
    ReadsList (smallAfter [.push 0 0, .push 0 0, .push 0 0])
      (ListOp.remove 0 1 : ListOp Config.small.blockSz).vtxno [0, 1, 2] :=
  ⟨4, by decide +kernel⟩

private theorem removedOnce_run :
    ∃ given, SubgraphRun ListOp.NotPopLast 0 (smallAfter removedOnce) given := by
  have hnext := smallAfter_next smallAfter_pushed (by decide) smallAfter_pushed_list
    (show (1 : UInt32) ∈ [0, 1, 2] by decide) trivial nofun
  exact hnext

private theorem removedOnce_list : ReadsList (smallAfter removedOnce) 0 [0, 2] :=
  ⟨4, by decide +kernel⟩

private theorem run_eq_of_fst {α : Type} {x : StorageM c AllMapped α} {s : FlatStorage c}
    {r : Except Fault α} (h : (x.run s).1 = r) : x.run s = (r, (x.run s).2) :=
  Prod.ext h rfl

/-- The small subgraph after the middle block is removed a second time. -/
def removedTwice : FlatStorage Config.small :=
  (((ListOp.remove 0 1 : ListOp Config.small.blockSz).run .ok).run (smallAfter removedOnce)).2

private theorem removedTwice_run :
    ((ListOp.remove 0 1 : ListOp Config.small.blockSz).run .ok).run (smallAfter removedOnce) =
      (.ok none, removedTwice) := by
  rw [removedTwice]
  exact run_eq_of_fst (by decide +kernel)

private theorem removedTwice_count :
    removedTwice.superblk.numOfFreeBlks ≠ (smallAfter removedOnce).superblk.numOfFreeBlks := by
  decide +kernel

private theorem removedTwice_not_harmless :
    ¬Harmless (smallAfter removedOnce) 0 (.remove 0 1) .ok := by
  intro hharmless
  obtain ⟨-, ⟨what, he⟩ | ⟨-, hsuper⟩⟩ := hharmless _ _ removedTwice_run
  · cases he
  · exact removedTwice_count (congrArg SuperBlock.numOfFreeBlks hsuper)

/-- The small subgraph after the removed block is required once. -/
def requiredOnce : FlatStorage Config.small :=
  ((require .ok).run removedTwice).2

private theorem removedTwice_require :
    (require .ok).run removedTwice = (.ok 1, requiredOnce) := by
  rw [requiredOnce]
  exact run_eq_of_fst (by decide +kernel)

private theorem requiredOnce_require : ((require .ok).run requiredOnce).1 = .ok 1 := by
  decide +kernel

/-- The middle block is removed a second time: the remove returns, and two requires return the
block. -/
theorem harmless_false_of_removeTwice :
    WellFormed (smallAfter removedOnce) 0 ∧ ReadsList (smallAfter removedOnce) 0 [0, 2] ∧
      ¬Harmless (smallAfter removedOnce) 0 (.remove 0 1) .ok ∧
      ((ListOp.remove 0 1).run .ok).run (smallAfter removedOnce) = (.ok none, removedTwice) ∧
      (require .ok).run removedTwice = (.ok 1, requiredOnce) ∧
      ((require .ok).run requiredOnce).1 = .ok 1 := by
  obtain ⟨given, hrun⟩ := removedOnce_run
  exact ⟨hrun.wellFormed (by decide), removedOnce_list, removedTwice_not_harmless,
    removedTwice_run, removedTwice_require, requiredOnce_require⟩

end Nynn
