import Nynn.Storage.DequeOps

/-!
# Runs of the list operations

From a formatted subgraph on, the list operations are the operations of deques, a block is never
in two lists or in a list and free, and what one vertex does is invisible to the others. Two
conditions are needed. The subgraph must not be the last one, which ends at `2 ^ 32`: there the
vertices are never initialised. And a pop must not meet a list with exactly one block: it clears
the tail of the vertex and leaves the head.

Source: `nynn_mm_subgraph_set.h`, `nynn_mm_subgraph_storage.h`.

## Main definitions

* `Nynn.IsVertexList`: what `readAllBlknos`, the links back and the size say about a vertex.
* `Nynn.SubgraphRun`: the runs of the list operations.
* `Nynn.Conserved`, `Nynn.Isolated`: no block has two owners, and vertices do not interfere.

## Main results

* `Nynn.subgraphRun_lists`: every list is a deque.
* `Nynn.subgraphRun_conserved`: blocks are conserved and vertices isolated.
-/

namespace Nynn

open Program LinkedRing

variable {c : Config}

/-! ### What the source reads of a list -/

section Generic

variable {M : Type}

/-- `readAllBlknos` returns the list `l` for the vertex `v`. -/
def ReadsList [OverflowTable M] (s : Storage c M) (v : UInt32) (l : List UInt32) : Prop :=
  ∃ fuel, ((readAllBlknos fuel v).run s).1 = .ok (some l)

/-- The list of the vertex `v` is `l`: `readAllBlknos` returns it, its blocks are read, following
`getPrev` from the tail gives its reverse, head and tail are invalid just when it is empty, and the
size of the vertex is its number of content bytes. -/
structure IsVertexList [OverflowTable M] (s : Storage c M) (v : UInt32) (l : List UInt32) :
    Prop where
  reads : ReadsList s v l
  nodup : l.Nodup
  readable : ∀ b ∈ l, ((read v b).run s).1 = .ok (s.blocks b)
  backwards : ∃ tailBlkno, (getTailBlkno v).run s = (.ok tailBlkno, s) ∧
    Walk (fun b => (s.blocks b).getPrev) invalidBlkno tailBlkno l.reverse
  head_invalid_iff : (getHeadBlkno v).run s = (.ok invalidBlkno, s) ↔ l = []
  tail_invalid_iff : (getTailBlkno v).run s = (.ok invalidBlkno, s) ↔ l = []
  size : ∃ n, (getSize v).run s = (.ok n, s) ∧ n.toNat = contentSum s.blocks l % 2 ^ 32

variable {s : Storage c M} {vtx : Fin c.vertexIntervalWidth} {v : UInt32}

theorem getHeadBlkno_run (hvtx : vertexSlot s.superblk.getMinVtxno v = vtx.val) :
    (getHeadBlkno v).run s = (.ok (s.superblk.vertices vtx).headBlkno, s) := by
  rw [getHeadBlkno, Prog.run_bind_of_ok (getVertex_run hvtx),
    Prog.run_bind_of_ok (readVertex_apply ..), Prog.run_pure]

theorem getTailBlkno_run (hvtx : vertexSlot s.superblk.getMinVtxno v = vtx.val) :
    (getTailBlkno v).run s = (.ok (s.superblk.vertices vtx).tailBlkno, s) := by
  rw [getTailBlkno, Prog.run_bind_of_ok (getVertex_run hvtx),
    Prog.run_bind_of_ok (readVertex_apply ..), Prog.run_pure]

theorem getSize_run (hvtx : vertexSlot s.superblk.getMinVtxno v = vtx.val) :
    (getSize v).run s = (.ok (s.superblk.vertices vtx).size, s) := by
  rw [getSize, Prog.run_bind_of_ok (getVertex_run hvtx),
    Prog.run_bind_of_ok (readVertex_apply ..), Prog.run_pure]

end Generic

section Reading

variable {s : FlatStorage c} {vtx : Fin c.vertexIntervalWidth} {v a : UInt32} {l : List UInt32}

/-- The loop of `readAllBlknos` reads a walk. -/
theorem readBlknosFrom_of_walk (h : Walk (fun b => (s.blocks b).getNext) invalidBlkno a l)
    (hblk : ∀ b ∈ l, s.isBlock b = true) {fuel : ℕ} (hfuel : l.length < fuel) :
    (readBlknosFrom fuel a).run s = (.ok (some l), s) := by
  induction h generalizing fuel with
  | done =>
    obtain ⟨fuel, rfl⟩ := Nat.exists_eq_add_of_lt hfuel
    rw [readBlknosFrom, if_pos rfl, Prog.run_pure]
  | @step a l ha h ih =>
    obtain ⟨n, rfl⟩ : ∃ n, fuel = n + 1 := ⟨fuel - 1, by omega⟩
    have hlen : l.length < n := by
      rw [List.length_cons] at hfuel
      omega
    have hrest := ih (fun b hb => hblk b (List.mem_cons_of_mem _ hb)) hlen
    rw [readBlknosFrom, if_neg ha,
      Prog.run_bind_of_ok (readBlock_of_isBlock (hblk a List.mem_cons_self)),
      Prog.run_bind_of_ok hrest, Prog.run_pure]
    rfl

/-- What the loop of `readAllBlknos` reads is a walk of blocks. -/
theorem walk_of_readBlknosFrom {fuel : ℕ}
    (h : ((readBlknosFrom fuel a).run s).1 = .ok (some l)) :
    Walk (fun b => (s.blocks b).getNext) invalidBlkno a l ∧ ∀ b ∈ l, s.isBlock b = true := by
  induction fuel generalizing a l with
  | zero => simp [readBlknosFrom] at h
  | succ n ih =>
    by_cases ha : a = invalidBlkno
    · rw [readBlknosFrom, if_pos ha, Prog.run_pure] at h
      obtain rfl : [] = l := by simpa using h
      rw [ha]
      exact ⟨.done, nofun⟩
    · rw [readBlknosFrom, if_neg ha] at h
      by_cases hblk : s.isBlock a = true
      · rw [Prog.run_bind_of_ok (readBlock_of_isBlock hblk)] at h
        rcases hrest : (readBlknosFrom n (s.blocks a).getNext).run s with ⟨e | rest, s'⟩
        · rw [Prog.run_bind_of_error hrest] at h
          cases h
        · rw [Prog.run_bind_of_ok hrest, Prog.run_pure] at h
          cases rest with
          | none => simp at h
          | some m =>
            obtain rfl : a :: m = l := by simpa using h
            obtain ⟨hwalk, hblocks⟩ := ih (by rw [hrest])
            exact ⟨.step ha hwalk, List.forall_mem_cons.mpr ⟨hblk, hblocks⟩⟩
      · rw [Bool.not_eq_true] at hblk
        have hread : (readBlock a : StorageM c AllMapped (Block c.blockSz)).run s =
            (.error (.exception "Fail to get specified block(getBlock)!"), s) := by
          rw [readBlock, Prog.run_bind_of_ok (getBlock_of_not_isBlock hblk)]
          rfl
        rw [Prog.run_bind_of_error hread] at h
        cases h

/-- The slot of a vertex whose list is read, and the walk from its head. -/
theorem ReadsList.exists_walk (h : ReadsList s v l) : ∃ vtx : Fin c.vertexIntervalWidth,
    vertexSlot s.superblk.getMinVtxno v = vtx.val ∧
      Walk (fun b => (s.blocks b).getNext) invalidBlkno (s.superblk.vertices vtx).headBlkno l ∧
      ∀ b ∈ l, s.isBlock b = true := by
  obtain ⟨fuel, hread⟩ := h
  by_cases hslot : vertexSlot s.superblk.getMinVtxno v < c.vertexIntervalWidth
  · obtain ⟨vtx, hvtx⟩ : ∃ vtx : Fin c.vertexIntervalWidth,
        vertexSlot s.superblk.getMinVtxno v = vtx.val := ⟨⟨_, hslot⟩, rfl⟩
    rw [readAllBlknos, Prog.run_bind_of_ok (getHeadBlkno_run hvtx)] at hread
    exact ⟨vtx, hvtx, walk_of_readBlknosFrom hread⟩
  · have hhead : (getHeadBlkno v).run s = (.error .outOfRange, s) := by
      refine Prog.run_bind_of_error ?_
      rw [getVertex, Prog.run_get_bind, dif_neg hslot, Prog.run_fail]
    rw [readAllBlknos, Prog.run_bind_of_error hhead] at hread
    cases hread

/-- A list that is read in the same way from another storage with the same data. -/
theorem IsVertexList.of_reads {M : Type} [OverflowTable M] {s' : Storage c M}
    (h : IsVertexList s v l) (hsuper : s'.superblk = s.superblk) (hblocks : s'.blocks = s.blocks)
    (hreads : ReadsList s' v l) (hreadable : ∀ b ∈ l, ((read v b).run s').1 = .ok (s.blocks b)) :
    IsVertexList s' v l := by
  obtain ⟨vtx, hvtx, -⟩ := h.reads.exists_walk
  have hvtx' : vertexSlot s'.superblk.getMinVtxno v = vtx.val := hsuper ▸ hvtx
  have hhead := h.head_invalid_iff
  have htail := h.tail_invalid_iff
  obtain ⟨tail, htailBlkno, hback⟩ := h.backwards
  obtain ⟨n, hn, hsum⟩ := h.size
  rw [getHeadBlkno_run hvtx, Prod.mk.injEq, Except.ok.injEq, and_iff_left rfl] at hhead
  rw [getTailBlkno_run hvtx, Prod.mk.injEq, Except.ok.injEq, and_iff_left rfl] at htail
  rw [getTailBlkno_run hvtx, Prod.mk.injEq, Except.ok.injEq] at htailBlkno
  rw [getSize_run hvtx, Prod.mk.injEq, Except.ok.injEq] at hn
  refine ⟨hreads, h.nodup, fun b hb => (hreadable b hb).trans (by rw [hblocks]),
    ⟨tail, ?_, hblocks ▸ hback⟩, ?_, ?_, n, ?_, hblocks ▸ hsum⟩
  · rw [getTailBlkno_run hvtx', hsuper, htailBlkno.1]
  · rw [getHeadBlkno_run hvtx', hsuper, Prod.mk.injEq, Except.ok.injEq, and_iff_left rfl, hhead]
  · rw [getTailBlkno_run hvtx', hsuper, Prod.mk.injEq, Except.ok.injEq, and_iff_left rfl, htail]
  · rw [getSize_run hvtx', hsuper, hn.1]

/-- The list depends on the superblock and the bytes only. -/
theorem IsVertexList.congr {s' : FlatStorage c} (h : IsVertexList s v l)
    (hsuper : s'.superblk = s.superblk) (hblocks : s'.blocks = s.blocks) :
    IsVertexList s' v l := by
  obtain ⟨vtx, hvtx, hwalk, hblk⟩ := h.reads.exists_walk
  have hvtx' : vertexSlot s'.superblk.getMinVtxno v = vtx.val := hsuper ▸ hvtx
  have hblk' : ∀ b ∈ l, s'.isBlock b = true := by
    simpa only [Storage.isBlock, hsuper] using hblk
  have hwalk' : Walk (fun b => (s'.blocks b).getNext) invalidBlkno
      (s'.superblk.vertices vtx).headBlkno l := by
    rw [hsuper, hblocks]
    exact hwalk
  refine h.of_reads hsuper hblocks ⟨l.length + 1, ?_⟩ fun b hb => ?_
  · rw [readAllBlknos, Prog.run_bind_of_ok (getHeadBlkno_run hvtx'),
      readBlknosFrom_of_walk hwalk' hblk' (Nat.lt_succ_self _)]
  · rw [read, readBlock_of_isBlock (hblk' b hb), hblocks]

end Reading

namespace Represents

variable {s : FlatStorage c} {minVtxno : UInt32} {d : Deques c}

private theorem walk (h : Represents s minVtxno d) (vtx : Fin c.vertexIntervalWidth) :
    Walk (fun b => (s.blocks b).getNext) invalidBlkno (s.superblk.vertices vtx).headBlkno
      (d.lists vtx) := by
  have hwalk := (h.linked vtx).walk_next
  rw [ring_next_invalidBlkno] at hwalk
  exact hwalk.congr fun b hb => (ring_next s vtx (h.ne_invalidBlkno hb)).symm

theorem readsList (h : Represents s minVtxno d) (vtx : Fin c.vertexIntervalWidth) :
    ReadsList s (minVtxno + UInt32.ofNat vtx.val) (d.lists vtx) := by
  refine ⟨(d.lists vtx).length + 1, ?_⟩
  rw [readAllBlknos, Prog.run_bind_of_ok (getHeadBlkno_run (h.vertexSlot vtx)),
    readBlknosFrom_of_walk (h.walk vtx) (fun b hb => h.isBlock hb) (Nat.lt_succ_self _)]

/-- The list that `readAllBlknos` returns is the one of the abstract state. -/
theorem eq_of_readsList (h : Represents s minVtxno d) {vtx : Fin c.vertexIntervalWidth}
    {l : List UInt32} (hl : ReadsList s (minVtxno + UInt32.ofNat vtx.val) l) :
    l = d.lists vtx := by
  obtain ⟨fuel, hread⟩ := hl
  rw [readAllBlknos, Prog.run_bind_of_ok (getHeadBlkno_run (h.vertexSlot vtx))] at hread
  exact (walk_of_readBlknosFrom hread).1.unique (h.walk vtx)

theorem isVertexList (h : Represents s minVtxno d) (vtx : Fin c.vertexIntervalWidth) :
    IsVertexList s (minVtxno + UInt32.ofNat vtx.val) (d.lists vtx) where
  reads := h.readsList vtx
  nodup := (h.linked vtx).list_nodup
  readable b hb := congrArg Prod.fst (readBlock_of_isBlock (h.isBlock hb))
  backwards := by
    have hwalk := (h.linked vtx).walk_prev
    rw [ring_prev_invalidBlkno] at hwalk
    refine ⟨_, getTailBlkno_run (h.vertexSlot vtx), hwalk.congr fun b hb => ?_⟩
    exact (ring_prev s vtx (h.ne_invalidBlkno (List.mem_reverse.mp hb))).symm
  head_invalid_iff := by
    rw [getHeadBlkno_run (h.vertexSlot vtx), (h.walk vtx).eq_nil_iff]
    simp
  tail_invalid_iff := by
    have hwalk := (h.linked vtx).walk_prev
    rw [ring_prev_invalidBlkno] at hwalk
    rw [getTailBlkno_run (h.vertexSlot vtx), ← List.reverse_eq_nil_iff, hwalk.eq_nil_iff]
    simp
  size := ⟨_, getSize_run (h.vertexSlot vtx), h.size vtx⟩

end Represents

/-! ### Vertices of a subgraph -/

theorem toNat_subgraphKey (v : UInt32) :
    (subgraphKey c v).toNat = v.toNat - v.toNat % c.vertexIntervalWidth := by
  refine toNat_and_not_of_mask ?_ v
  have hpos := c.vertexIntervalWidth_pos
  have hlt := c.vertexIntervalWidth_lt
  rw [UInt32.toNat_sub_of_le, UInt32.toNat_ofNat_of_lt' hlt]
  · rfl
  · rw [UInt32.le_iff_toNat_le, UInt32.toNat_ofNat_of_lt' hlt]
    exact hpos

/-- The vertices with the key `minVtxno` are the ones of its interval. -/
theorem subgraphKey_eq_iff {minVtxno : UInt32} (hmod : minVtxno.toNat % c.vertexIntervalWidth = 0)
    (hmin : minVtxno.toNat + c.vertexIntervalWidth < 2 ^ 32) (v : UInt32) :
    subgraphKey c v = minVtxno ↔
      ∃ vtx : Fin c.vertexIntervalWidth, v = minVtxno + UInt32.ofNat vtx.val := by
  have hpos := c.vertexIntervalWidth_pos
  have hadd : ∀ vtx : Fin c.vertexIntervalWidth,
      (minVtxno + UInt32.ofNat vtx.val).toNat = minVtxno.toNat + vtx.val := fun vtx => by
    have hlt := vtx.isLt
    rw [UInt32.toNat_add, UInt32.toNat_ofNat_of_lt' (show vtx.val < 2 ^ 32 by omega),
      Nat.mod_eq_of_lt]
    omega
  rw [← UInt32.toNat_inj, toNat_subgraphKey]
  refine ⟨fun h => ⟨⟨v.toNat % c.vertexIntervalWidth, Nat.mod_lt _ hpos⟩, ?_⟩, ?_⟩
  · have hle := Nat.mod_le v.toNat c.vertexIntervalWidth
    rw [← UInt32.toNat_inj, hadd, ← h]
    exact (Nat.sub_add_cancel hle).symm
  · rintro ⟨vtx, rfl⟩
    rw [hadd, Nat.add_mod, hmod, Nat.zero_add, Nat.mod_mod, Nat.mod_eq_of_lt vtx.isLt,
      Nat.add_sub_cancel]

theorem add_ofNat_injective {minVtxno : UInt32} {vtx w : Fin c.vertexIntervalWidth}
    (h : minVtxno + UInt32.ofNat vtx.val = minVtxno + UInt32.ofNat w.val) : vtx = w := by
  have hvtx := vtx.isLt.trans c.vertexIntervalWidth_lt
  have hw := w.isLt.trans c.vertexIntervalWidth_lt
  have heq := congrArg UInt32.toNat ((UInt32.add_right_inj minVtxno).mp h)
  rw [UInt32.toNat_ofNat_of_lt' hvtx, UInt32.toNat_ofNat_of_lt' hw] at heq
  exact Fin.ext heq

/-! ### Runs -/

/-- The blocks handed to insertions, after the operation returned `r`. -/
def ListOp.give {z : BlockSz} (op : ListOp z) (r : Except Fault (Option UInt32))
    (given : UInt32 → Block z) : UInt32 → Block z :=
  match r, op.newBlk with
  | .ok (some x), some blk => Function.update given x blk
  | _, _ => given

/-- The runs from a formatted subgraph whose steps are operations on its vertices with allowed
arguments, that meet the condition `P`, and whose require succeeds; the last argument remembers for
each block number the block handed to its last insertion. -/
inductive SubgraphRun (P : ListOp c.blockSz → List UInt32 → Prop) (minVtxno : UInt32) :
    FlatStorage c → (UInt32 → Block c.blockSz) → Prop
  | format {s : FlatStorage c} (given : UInt32 → Block c.blockSz)
      (h : Nynn.format .allMapped minVtxno = (.ok (), s)) : SubgraphRun P minVtxno s given
  | step {s s' : FlatStorage c} {given : UInt32 → Block c.blockSz} {op : ListOp c.blockSz}
      {disk : CreateOutcome} {l : List UInt32} {r : Except Fault (Option UInt32)}
      (h : SubgraphRun P minVtxno s given) (hkey : subgraphKey c op.vtxno = minVtxno)
      (hl : ReadsList s op.vtxno l) (hallowed : op.Allowed l) (hP : P op l)
      (hreq : op.newBlk.isSome = true → ∃ b s₁, (require disk).run s = (.ok b, s₁))
      (hrun : (op.run disk).run s = (r, s')) : SubgraphRun P minVtxno s' (op.give r given)

theorem SubgraphRun.next {P : ListOp c.blockSz → List UInt32 → Prop} {minVtxno : UInt32}
    {s : FlatStorage c} {given : UInt32 → Block c.blockSz} {op : ListOp c.blockSz}
    {disk : CreateOutcome} {l : List UInt32} (h : SubgraphRun P minVtxno s given)
    (hkey : subgraphKey c op.vtxno = minVtxno) (hl : ReadsList s op.vtxno l)
    (hallowed : op.Allowed l) (hP : P op l)
    (hreq : op.newBlk.isSome = true → ∃ b s₁, (require disk).run s = (.ok b, s₁)) :
    SubgraphRun P minVtxno ((op.run disk).run s).2 (op.give ((op.run disk).run s).1 given) :=
  .step h hkey hl hallowed hP hreq rfl

/-- The vertices of a formatted subgraph, except the last one. -/
theorem vertices_format {M : Type} [OverflowTable M] {t : M} {minVtxno : UInt32} {s : Storage c M}
    (h : Nynn.format t minVtxno = (.ok (), s))
    (hmin : minVtxno.toNat + c.vertexIntervalWidth < 2 ^ 32) (vtx : Fin c.vertexIntervalWidth) :
    s.superblk.vertices vtx = Vertex.new (minVtxno + UInt32.ofNat vtx.val) := by
  have hinit := (of_format_eq_ok h).2.2
  rw [show initVertices minVtxno _ minVtxno (zeroVertices c) =
    initVertices minVtxno _ (minVtxno + UInt32.ofNat 0) (zeroVertices c) from
      congrArg (initVertices minVtxno _ · _) (UInt32.add_zero minVtxno).symm] at hinit
  rw [initVertices_apply hmin (Nat.zero_add _) hinit, if_pos (Nat.zero_le _)]

/-- A formatted subgraph, except the last one, represents empty lists. -/
theorem represents_format {minVtxno : UInt32} {s : FlatStorage c}
    (h : Nynn.format .allMapped minVtxno = (.ok (), s))
    (hmin : minVtxno.toNat + c.vertexIntervalWidth < 2 ^ 32) :
    Represents s minVtxno ⟨⟨blknoRange 0 c.overflowBlknoMin.toNat, c.overflowBlknoMin⟩,
      fun _ => []⟩ := by
  have hrefines := refines_format h
  have hsup : s.superblk.supBlkno = c.overflowBlknoMin := hrefines.supBlkno
  have hvertex : ∀ vtx, s.superblk.vertices vtx =
      Vertex.new (minVtxno + UInt32.ofNat vtx.val) := vertices_format h hmin
  refine ⟨hrefines, fun vtx => ?_, fun vtx => ?_, fun vtx => ?_, by simp, fun b => ?_, by simp,
    by simp⟩
  · rw [hvertex]
    rfl
  · refine ⟨by simp, List.isChain_pair.mpr ⟨?_, ?_⟩⟩
    · rw [ring_next_invalidBlkno, hvertex]
      rfl
    · rw [ring_prev_invalidBlkno, hvertex]
      rfl
  · rw [hvertex]
    rfl
  · refine ⟨fun hb => Or.inl ?_, fun hb => ?_⟩
    · have hlt := (hrefines.groups.isBlock_iff b).mp hb
      rw [hsup, UInt32.lt_iff_toNat_lt] at hlt
      refine mem_blknoRange.mpr ⟨b.toNat, hlt, ?_⟩
      rw [UInt32.zero_add, UInt32.ofNat_toNat]
    · rcases hb with hb | ⟨_, hb⟩
      · exact hrefines.free.isBlock b hb
      · cases hb

/-- The bytes a block keeps while it is in a list: the timestamps and the content. -/
def KeepsGiven {z : BlockSz} (blk given : Block z) : Prop :=
  ∀ i : Fin z.bytes, 12 ≤ i.val → blk i = given i

theorem KeepsGiven.of_sameBody {z : BlockSz} {b b' given : Block z} (h : KeepsGiven b given)
    (hb : b.SameBody b') : KeepsGiven b' given :=
  fun i hi => (hb i (Or.inr hi)).trans (h i hi)

/-- What an operation does to the blocks of a list is seen by its abstract state. -/
private theorem keepsGiven_step {s s' : FlatStorage c} {d : Deques c}
    {vtx : Fin c.vertexIntervalWidth} {given : UInt32 → Block c.blockSz}
    {op : ListOp c.blockSz} (hframe : Frame s s' vtx d (op.apply vtx d).2)
    (hnew : ∀ blk, op.newBlk = some blk → (blk.setSource op.vtxno).SameBody
      (s'.blocks (d.pool.require c.groupSize).1))
    (hfresh : op.newBlk.isSome = true → ∀ w, (d.pool.require c.groupSize).1 ∉ d.lists w)
    (hold : ∀ w, ∀ b ∈ d.lists w, KeepsGiven (s.blocks b) (given b))
    (hafter : ∀ b ∈ (op.apply vtx d).2.lists vtx, b ∈ d.lists vtx ∨
      op.newBlk.isSome = true ∧ b = (d.pool.require c.groupSize).1) :
    ∀ w, ∀ b ∈ (op.apply vtx d).2.lists w,
      KeepsGiven (s'.blocks b) (op.give (.ok (op.apply vtx d).1) given b) := by
  intro w b hb
  have hstay : (op.newBlk.isSome = true → b ≠ (d.pool.require c.groupSize).1) →
      op.give (.ok (op.apply vtx d).1) given b = given b := by
    intro hne
    cases hblk : op.newBlk with
    | none => simp [ListOp.give, ListOp.apply, hblk]
    | some blk =>
      simp only [ListOp.give, ListOp.apply, hblk]
      exact Function.update_of_ne (hne (by simp [hblk])) _ _
  by_cases hw : w = vtx
  · subst hw
    rcases hafter b hb with hmem | ⟨hsome, rfl⟩
    · rw [hstay fun hsome he => hfresh hsome w (he ▸ hmem)]
      exact (hold w b hmem).of_sameBody (hframe.body b hmem hb)
    · obtain ⟨blk, hblk⟩ := Option.isSome_iff_exists.mp hsome
      have hgive : op.give (.ok (op.apply w d).1) given (d.pool.require c.groupSize).1 = blk := by
        simp [ListOp.give, ListOp.apply, hblk]
      rw [hgive]
      refine KeepsGiven.of_sameBody ?_ (hnew blk hblk)
      exact fun i hi => blk.setSource_apply_of_notMem _ (by omega)
  · rw [hframe.lists w hw] at hb
    rw [hstay fun hsome he => hfresh hsome w (he ▸ hb), hframe.blocks w hw b hb]
    exact hold w b hb

namespace Represents

variable {s : FlatStorage c} {minVtxno : UInt32} {d : Deques c} {disk : CreateOutcome}

/-- The block a require takes is in no list. -/
private theorem require_notMem (h : Represents s minVtxno d)
    (hreq : ∃ b s₁, (require disk).run s = (.ok b, s₁)) (w : Fin c.vertexIntervalWidth) :
    (d.pool.require c.groupSize).1 ∉ d.lists w := by
  obtain ⟨b, s₁, hrun⟩ := hreq
  obtain ⟨rfl, hreq⟩ := h.refines.require hrun
  exact fun hmem =>
    hreq.fresh _ (h.isBlock hmem) (h.notMem_stack w _ hmem) List.mem_cons_self

private theorem mem_apply {vtx : Fin c.vertexIntervalWidth} {op : ListOp c.blockSz} {b : UInt32}
    (hb : b ∈ (op.apply vtx d).2.lists vtx) : b ∈ d.lists vtx ∨
      op.newBlk.isSome = true ∧ b = (d.pool.require c.groupSize).1 := by
  rw [ListOp.apply] at hb
  cases hblk : op.newBlk with
  | some blk =>
    simp only [hblk, Deques.lists_update_self] at hb
    exact (op.mem_listAfter hb).imp_right fun h => ⟨rfl, h.2⟩
  | none =>
    simp only [hblk] at hb
    split at hb
    · rw [Deques.lists_update_self] at hb
      refine (op.mem_listAfter hb).imp_right fun h => ?_
      rw [hblk] at h
      exact absurd h.1 Bool.false_ne_true
    · exact Or.inl hb

end Represents

/-- Along a run without a pop of the only block, a subgraph that is not the last one represents
deques, and the blocks in the lists keep the bytes they were given. -/
theorem SubgraphRun.exists_deques {minVtxno : UInt32} {s : FlatStorage c}
    {given : UInt32 → Block c.blockSz}
    (h : SubgraphRun ListOp.NotPopLast minVtxno s given)
    (hmin : minVtxno.toNat + c.vertexIntervalWidth < 2 ^ 32) :
    minVtxno.toNat % c.vertexIntervalWidth = 0 ∧ ∃ d : Deques c, Represents s minVtxno d ∧
      ∀ w, ∀ b ∈ d.lists w, KeepsGiven (s.blocks b) (given b) := by
  induction h with
  | format given h => exact ⟨format_eq_ok h, _, represents_format h hmin, by simp⟩
  | @step s s' given op disk l r _ hkey hl hallowed hpop hreq hrun ih =>
    obtain ⟨hmod, d, hd, hgiven⟩ := ih
    obtain ⟨vtx, hvtx⟩ := (subgraphKey_eq_iff hmod hmin op.vtxno).mp hkey
    obtain rfl : l = d.lists vtx := hd.eq_of_readsList (hvtx ▸ hl)
    obtain ⟨s'', hrun', hrep, hframe, hnew⟩ := hd.run hvtx hallowed hpop hreq
    rw [hrun', Prod.mk.injEq] at hrun
    obtain ⟨rfl, rfl⟩ := hrun
    exact ⟨hmod, _, hrep, keepsGiven_step hframe hnew
      (fun hsome w => hd.require_notMem (hreq hsome) w) hgiven fun b hb =>
        Represents.mem_apply hb⟩

/-- **The lists are deques.** Along a run from a formatted subgraph that is not the last one, in
which no pop meets a list with exactly one block, every vertex has a list, and an operation on it
returns and does to the list what the deque operation of its name does. -/
theorem subgraphRun_lists {minVtxno : UInt32} {s : FlatStorage c}
    {given : UInt32 → Block c.blockSz}
    (h : SubgraphRun ListOp.NotPopLast minVtxno s given)
    (hmin : minVtxno.toNat + c.vertexIntervalWidth < 2 ^ 32) (v : UInt32)
    (hv : subgraphKey c v = minVtxno) :
    ∃ l, IsVertexList s v l ∧ ∀ (op : ListOp c.blockSz) (disk : CreateOutcome), op.vtxno = v →
      op.Allowed l → op.NotPopLast l →
      (op.newBlk.isSome = true → ∃ b s₁, (require disk).run s = (.ok b, s₁)) →
      ∃ r s', (op.run disk).run s = (.ok r, s') ∧ r.isSome = op.newBlk.isSome ∧
        IsVertexList s' v (op.listAfter (r.getD invalidBlkno) l) := by
  obtain ⟨hmod, d, hd, -⟩ := h.exists_deques hmin
  obtain ⟨vtx, rfl⟩ := (subgraphKey_eq_iff hmod hmin v).mp hv
  refine ⟨d.lists vtx, hd.isVertexList vtx, fun op disk hvtx hallowed hpop hreq => ?_⟩
  obtain ⟨s', hrun, hrep, -, -⟩ := hd.run hvtx hallowed hpop hreq
  refine ⟨_, s', hrun, ?_, ?_⟩
  · cases hblk : op.newBlk with
    | some blk => simp [ListOp.apply, hblk]
    | none =>
      simp only [ListOp.apply, hblk]
      split <;> rfl
  · have hlist : (op.apply vtx d).2.lists vtx =
        op.listAfter ((op.apply vtx d).1.getD invalidBlkno) (d.lists vtx) := by
      cases hblk : op.newBlk with
      | some blk => simp [ListOp.apply, hblk]
      | none =>
        simp only [ListOp.apply, hblk]
        split
        · simp
        · next hdrop => exact (op.listAfter_of_dropped_none hblk hdrop).symm
    rw [← hlist]
    exact hrep.isVertexList vtx

/-- A small subgraph after one push to the vertex `0`. -/
def smallPushed : FlatStorage Config.small :=
  (((ListOp.push 0 0 : ListOp Config.small.blockSz).run .ok).run smallStorage).2

theorem smallPushed_run {P : ListOp Config.small.blockSz → List UInt32 → Prop}
    (hP : P (.push 0 0) []) : ∃ given, SubgraphRun P 0 smallPushed given := by
  have hformat : Nynn.format AllMapped.allMapped 0 = (.ok (), smallStorage) :=
    Prod.ext (by decide +kernel) rfl
  have hreads : ReadsList smallStorage 0 [] := ⟨1, by decide +kernel⟩
  have hreq : ∃ b s₁, (require .ok).run smallStorage = (.ok b, s₁) :=
    ⟨0, _, Prod.ext (by decide +kernel) rfl⟩
  rw [smallPushed]
  exact ⟨_, (SubgraphRun.format (fun _ => 0) hformat).next (by decide) hreads trivial hP
    fun _ => hreq⟩

/-! ### Conservation and isolation -/

/-- Every block below `supBlkno` is free or in the list of exactly one vertex, not both and not
twice, and the blocks in the list of `v` have the source `v` and, read back by `read`, the
timestamps and the content they were given. -/
def Conserved (s : FlatStorage c) (minVtxno : UInt32) (given : UInt32 → Block c.blockSz) :
    Prop :=
  ∃ (stack : List UInt32) (lists : UInt32 → List UInt32), FreeListOf s stack ∧
    (∀ v, subgraphKey c v = minVtxno → ReadsList s v (lists v) ∧ (lists v).Nodup) ∧
    (∀ b, b < s.superblk.supBlkno →
      (b ∈ stack ∧ ∀ v, subgraphKey c v = minVtxno → b ∉ lists v) ∨
      (b ∉ stack ∧ ∃! v, subgraphKey c v = minVtxno ∧ b ∈ lists v)) ∧
    ∀ v, subgraphKey c v = minVtxno → ∀ b ∈ lists v, ∃ blk, (read v b).run s = (.ok blk, s) ∧
      blk.getSource = v ∧ KeepsGiven blk (given b)

/-- Between the states only the vertex `v`, the links of the blocks in its list, and blocks that
are in no list before or after have changed. -/
structure Isolated (s s' : FlatStorage c) (minVtxno v : UInt32) : Prop where
  head : ∀ w, subgraphKey c w = minVtxno → w ≠ v →
    ((getHeadBlkno w).run s').1 = ((getHeadBlkno w).run s).1
  tail : ∀ w, subgraphKey c w = minVtxno → w ≠ v →
    ((getTailBlkno w).run s').1 = ((getTailBlkno w).run s).1
  size : ∀ w, subgraphKey c w = minVtxno → w ≠ v →
    ((getSize w).run s').1 = ((getSize w).run s).1
  list : ∀ w, subgraphKey c w = minVtxno → w ≠ v → ∀ l, ReadsList s w l → ReadsList s' w l
  blocks : ∀ w, subgraphKey c w = minVtxno → w ≠ v → ∀ l, ReadsList s w l →
    ∀ b ∈ l, s'.blocks b = s.blocks b
  links : ∀ l l', ReadsList s v l → ReadsList s' v l' → ∀ b ∈ l, b ∈ l' →
    (s.blocks b).SameBody (s'.blocks b)

namespace Represents

variable {s s' : FlatStorage c} {minVtxno : UInt32} {d d' : Deques c}
  {given : UInt32 → Block c.blockSz}

private theorem conserved (h : Represents s minVtxno d)
    (hmod : minVtxno.toNat % c.vertexIntervalWidth = 0)
    (hmin : minVtxno.toNat + c.vertexIntervalWidth < 2 ^ 32)
    (hgiven : ∀ w, ∀ b ∈ d.lists w, KeepsGiven (s.blocks b) (given b)) :
    Conserved s minVtxno given := by
  have hkey := subgraphKey_eq_iff hmod hmin
  -- The list of a vertex number, by its place in the interval.
  obtain ⟨lists, hlists⟩ : ∃ lists : UInt32 → List UInt32,
      ∀ vtx : Fin c.vertexIntervalWidth, lists (minVtxno + UInt32.ofNat vtx.val) = d.lists vtx := by
    refine ⟨fun v => d.lists ⟨(v - minVtxno).toNat % c.vertexIntervalWidth,
      Nat.mod_lt _ c.vertexIntervalWidth_pos⟩, fun vtx => congrArg d.lists (Fin.ext ?_)⟩
    have hlt := vtx.isLt.trans c.vertexIntervalWidth_lt
    change (minVtxno + UInt32.ofNat vtx.val - minVtxno).toNat % _ = vtx.val
    rw [UInt32.add_comm, UInt32.add_sub_cancel, UInt32.toNat_ofNat_of_lt' hlt,
      Nat.mod_eq_of_lt vtx.isLt]
  refine ⟨d.pool.stack, lists, h.refines.free, fun v hv => ?_, fun b hb => ?_, fun v hv b hb => ?_⟩
  · obtain ⟨vtx, rfl⟩ := (hkey v).mp hv
    rw [hlists]
    exact ⟨h.readsList vtx, (h.linked vtx).list_nodup⟩
  · rcases (h.cover b).mp ((h.refines.groups.isBlock_iff b).mpr hb) with hfree | ⟨vtx, hmem⟩
    · refine Or.inl ⟨hfree, fun v hv hmem => ?_⟩
      obtain ⟨vtx, rfl⟩ := (hkey v).mp hv
      rw [hlists] at hmem
      exact h.notMem_stack vtx b hmem hfree
    · refine Or.inr ⟨h.notMem_stack vtx b hmem, minVtxno + UInt32.ofNat vtx.val,
        ⟨(hkey _).mpr ⟨vtx, rfl⟩, by rwa [hlists]⟩, ?_⟩
      rintro v ⟨hv, hmem'⟩
      obtain ⟨w, rfl⟩ := (hkey v).mp hv
      rw [hlists] at hmem'
      by_contra hne
      exact h.disjoint vtx w (fun e => hne (by rw [e])) b hmem hmem'
  · obtain ⟨vtx, rfl⟩ := (hkey v).mp hv
    rw [hlists] at hb
    exact ⟨s.blocks b, readBlock_of_isBlock (h.isBlock hb), h.blockSource vtx b hb,
      hgiven vtx b hb⟩

private theorem isolated {vtx : Fin c.vertexIntervalWidth} (h : Represents s minVtxno d)
    (h' : Represents s' minVtxno d') (hframe : Frame s s' vtx d d')
    (hmod : minVtxno.toNat % c.vertexIntervalWidth = 0)
    (hmin : minVtxno.toNat + c.vertexIntervalWidth < 2 ^ 32) :
    Isolated s s' minVtxno (minVtxno + UInt32.ofNat vtx.val) := by
  have hkey := subgraphKey_eq_iff hmod hmin
  have hother : ∀ w, subgraphKey c w = minVtxno → w ≠ minVtxno + UInt32.ofNat vtx.val →
      ∃ i, i ≠ vtx ∧ w = minVtxno + UInt32.ofNat i.val := fun w hw hne => by
    obtain ⟨i, rfl⟩ := (hkey w).mp hw
    exact ⟨i, fun e => hne (by rw [e]), rfl⟩
  refine ⟨fun w hw hne => ?_, fun w hw hne => ?_, fun w hw hne => ?_, fun w hw hne l hl => ?_,
    fun w hw hne l hl b hb => ?_, fun l l' hl hl' b hb hb' => ?_⟩
  · obtain ⟨i, hi, rfl⟩ := hother w hw hne
    rw [getHeadBlkno_run (h.vertexSlot i), getHeadBlkno_run (h'.vertexSlot i),
      hframe.vertices i hi]
  · obtain ⟨i, hi, rfl⟩ := hother w hw hne
    rw [getTailBlkno_run (h.vertexSlot i), getTailBlkno_run (h'.vertexSlot i),
      hframe.vertices i hi]
  · obtain ⟨i, hi, rfl⟩ := hother w hw hne
    rw [getSize_run (h.vertexSlot i), getSize_run (h'.vertexSlot i), hframe.vertices i hi]
  · obtain ⟨i, hi, rfl⟩ := hother w hw hne
    rw [h.eq_of_readsList hl, ← hframe.lists i hi]
    exact h'.readsList i
  · obtain ⟨i, hi, rfl⟩ := hother w hw hne
    exact hframe.blocks i hi b (h.eq_of_readsList hl ▸ hb)
  · exact hframe.body b (h.eq_of_readsList hl ▸ hb) (h'.eq_of_readsList hl' ▸ hb')

end Represents

/-- **Conservation and isolation.** Along a run from a formatted subgraph that is not the last one,
in which no pop meets a list with exactly one block, blocks are conserved, and an operation on a
vertex is invisible to the other vertices and to the bytes of the blocks that stay in its list. -/
theorem subgraphRun_conserved {minVtxno : UInt32} {s : FlatStorage c}
    {given : UInt32 → Block c.blockSz}
    (h : SubgraphRun ListOp.NotPopLast minVtxno s given)
    (hmin : minVtxno.toNat + c.vertexIntervalWidth < 2 ^ 32) :
    Conserved s minVtxno given ∧
      ∀ (op : ListOp c.blockSz) (disk : CreateOutcome) (l : List UInt32)
        (r : Except Fault (Option UInt32)) (s' : FlatStorage c),
        subgraphKey c op.vtxno = minVtxno → ReadsList s op.vtxno l → op.Allowed l →
        op.NotPopLast l →
        (op.newBlk.isSome = true → ∃ b s₁, (require disk).run s = (.ok b, s₁)) →
        (op.run disk).run s = (r, s') → Isolated s s' minVtxno op.vtxno := by
  obtain ⟨hmod, d, hd, hgiven⟩ := h.exists_deques hmin
  refine ⟨hd.conserved hmod hmin hgiven,
    fun op disk l r s' hkey hl hallowed hpop hreq hrun => ?_⟩
  obtain ⟨vtx, hvtx⟩ := (subgraphKey_eq_iff hmod hmin op.vtxno).mp hkey
  obtain rfl : l = d.lists vtx := hd.eq_of_readsList (hvtx ▸ hl)
  obtain ⟨s'', hrun', hrep, hframe, -⟩ := hd.run hvtx hallowed hpop hreq
  rw [hrun', Prod.mk.injEq] at hrun
  obtain ⟨-, rfl⟩ := hrun
  rw [hvtx]
  exact hd.isolated hrep hframe hmod hmin

/-- In the small subgraph after one push to the vertex `0` the blocks are conserved. -/
theorem subgraphRun_conserved_small : ∃ given, Conserved smallPushed 0 given := by
  obtain ⟨given, hrun⟩ := smallPushed_run (P := ListOp.NotPopLast) trivial
  exact ⟨given, (subgraphRun_conserved hrun (by decide)).1⟩

/-- In the last subgraph nothing is conserved: its vertices have never been initialised, and none
of them is found. -/
theorem subgraphRun_conserved_false_of_last :
    ¬∀ (s : FlatStorage Config.small) (given : UInt32 → Block Config.small.blockSz),
      SubgraphRun ListOp.NotPopLast 0xFFFFFFFE s given → Conserved s 0xFFFFFFFE given := by
  intro hall
  have hformat : Nynn.format AllMapped.allMapped 0xFFFFFFFE =
      (.ok (), (format (c := Config.small) AllMapped.allMapped 0xFFFFFFFE).2) :=
    Prod.ext (by decide +kernel) rfl
  obtain ⟨stack, lists, -, hlists, -⟩ := hall _ _ (.format (fun _ => 0) hformat)
  obtain ⟨⟨fuel, hreads⟩, -⟩ := hlists 0xFFFFFFFE (by decide)
  have hhead : (getHeadBlkno 0xFFFFFFFE).run
      (format (c := Config.small) AllMapped.allMapped 0xFFFFFFFE).2 =
        (.error .outOfRange, (format (c := Config.small) AllMapped.allMapped 0xFFFFFFFE).2) :=
    Prod.ext (by decide +kernel) rfl
  rw [readAllBlknos, Prog.run_bind_of_error hhead] at hreads
  cases hreads

end Nynn
