import Nynn.Storage.MappedGroups
import Nynn.Storage.FreeBlocks
import Nynn.Storage.ReadMany
import Nynn.Storage.TableRuns

/-!
# Insertions for which no block is found

The four insertions require a block for the new data. When the require fails they throw, and they
should leave the subgraph as it was. `push` and `unshift` add the size of the new data to the vertex
before they require the block, so that the size is wrong after the failure; `insertPrev` and
`insertNext` at an inner block require first. And where the numbers of the next group go past
`2 ^ 32`, the require itself gives away blocks that are in use.

Source: `nynn_mm_subgraph_set.h`, `nynn_mm_subgraph_storage.h`.

## Main definitions

* `Nynn.WellFormed`: a storage with a free list in which every vertex has a list.
* `Nynn.Unchanged`: the vertices, their lists with the blocks in them, and the free list are what
  they were.

## Main results

* `Nynn.SubgraphRun.wellFormed`: the runs of the list operations stay well formed.
* `Nynn.failedInsertion_unchanged_iff`: when an insertion fails without a trace.
-/

namespace Nynn

open Program LinkedRing

variable {c : Config}

/-! ### Well-formed subgraphs -/

/-- The storage has a free list, and every vertex of the subgraph has a list. -/
structure WellFormed (s : FlatStorage c) (minVtxno : UInt32) : Prop where
  free : ∃ stack, FreeBlocks s stack
  lists : ∀ v, subgraphKey c v = minVtxno → ∃ l, IsVertexList s v l

theorem Represents.wellFormed {s : FlatStorage c} {minVtxno : UInt32} {d : Deques c}
    (h : Represents s minVtxno d) (hmod : minVtxno.toNat % c.vertexIntervalWidth = 0)
    (hmin : minVtxno.toNat + c.vertexIntervalWidth < 2 ^ 32) : WellFormed s minVtxno where
  free := ⟨_, h.refines.free, h.refines.groups.min_le, h.refines.groups.le_max⟩
  lists v hv := by
    obtain ⟨vtx, rfl⟩ := (subgraphKey_eq_iff hmod hmin v).mp hv
    exact ⟨_, h.isVertexList vtx⟩

/-- The list operations keep a subgraph well formed. -/
theorem SubgraphRun.wellFormed {minVtxno : UInt32} {s : FlatStorage c}
    {given : UInt32 → Block c.blockSz} (h : SubgraphRun ListOp.NotPopLast minVtxno s given)
    (hmin : minVtxno.toNat + c.vertexIntervalWidth < 2 ^ 32) : WellFormed s minVtxno := by
  obtain ⟨hmod, d, hd, -⟩ := h.exists_deques hmin
  exact hd.wellFormed hmod hmin

/-- Head, tail and size of the vertices, their lists, the blocks in the lists and the free list are
what they were. -/
structure Unchanged (s s' : FlatStorage c) (minVtxno : UInt32) : Prop where
  head : ∀ v, subgraphKey c v = minVtxno →
    ((getHeadBlkno v).run s').1 = ((getHeadBlkno v).run s).1
  tail : ∀ v, subgraphKey c v = minVtxno →
    ((getTailBlkno v).run s').1 = ((getTailBlkno v).run s).1
  size : ∀ v, subgraphKey c v = minVtxno → ((getSize v).run s').1 = ((getSize v).run s).1
  lists : ∀ v l, subgraphKey c v = minVtxno → ReadsList s v l → ReadsList s' v l
  blocks : ∀ v l, subgraphKey c v = minVtxno → ReadsList s v l →
    ∀ b ∈ l, ((read v b).run s').1 = ((read v b).run s).1
  free : ∀ stack, FreeListOf s stack → FreeListOf s' stack

theorem Unchanged.refl (s : FlatStorage c) (minVtxno : UInt32) : Unchanged s s minVtxno :=
  ⟨fun _ _ => rfl, fun _ _ => rfl, fun _ _ => rfl, fun _ _ _ => id, fun _ _ _ _ _ _ => rfl,
    fun _ => id⟩

/-- A change of the storage that leaves the vertices and the bytes alone, and the blocks of the
lists within reach. -/
private theorem unchanged_of_reaches {s s' : FlatStorage c} {minVtxno : UInt32}
    (hvertices : s'.superblk.vertices = s.superblk.vertices) (hblocks : s'.blocks = s.blocks)
    (hreach : ∀ v l, subgraphKey c v = minVtxno → ReadsList s v l →
      ∀ b ∈ l, s'.isBlock b = true)
    (hfree : ∀ stack, FreeListOf s stack → FreeListOf s' stack) : Unchanged s s' minVtxno := by
  have hminVtxno : s'.superblk.getMinVtxno = s.superblk.getMinVtxno := by
    rw [SuperBlock.getMinVtxno, SuperBlock.getMinVtxno, hvertices]
  have hvertex (v : UInt32) (f : Vertex → UInt32) :
      ((do let vtx ← getVertex v; let x ← readVertex vtx; pure (f x) :
        StorageM c AllMapped UInt32).run s').1 =
      ((do let vtx ← getVertex v; let x ← readVertex vtx; pure (f x) :
        StorageM c AllMapped UInt32).run s).1 := by
    by_cases hslot : vertexSlot s.superblk.getMinVtxno v < c.vertexIntervalWidth
    · obtain ⟨vtx, hvtx⟩ : ∃ vtx : Fin c.vertexIntervalWidth,
          vertexSlot s.superblk.getMinVtxno v = vtx.val := ⟨⟨_, hslot⟩, rfl⟩
      rw [Prog.run_bind_of_ok (getVertex_run hvtx),
        Prog.run_bind_of_ok (getVertex_run (hminVtxno ▸ hvtx)),
        Prog.run_bind_of_ok (readVertex_apply ..), Prog.run_bind_of_ok (readVertex_apply ..),
        hvertices]
      rfl
    · have hfail (t : FlatStorage c) (ht : t.superblk.getMinVtxno = s.superblk.getMinVtxno) :
          (getVertex v).run t = (.error .outOfRange, t) := by
        rw [getVertex, Prog.run_get_bind, ht, dif_neg hslot, Prog.run_fail]
      rw [Prog.run_bind_of_error (hfail s rfl), Prog.run_bind_of_error (hfail s' hminVtxno)]
  refine ⟨fun v _ => hvertex v Vertex.headBlkno, fun v _ => hvertex v Vertex.tailBlkno,
    fun v _ => hvertex v Vertex.size, fun v l hv hl => ?_, fun v l hv hl b hb => ?_, hfree⟩
  · obtain ⟨vtx, hvtx, hwalk, -⟩ := hl.exists_walk
    refine ⟨l.length + 1, ?_⟩
    have hwalk' : Walk (fun b => (s'.blocks b).getNext) invalidBlkno
        (s'.superblk.vertices vtx).headBlkno l := by
      rw [hvertices, hblocks]
      exact hwalk
    rw [readAllBlknos, Prog.run_bind_of_ok (getHeadBlkno_run (hminVtxno ▸ hvtx)),
      readBlknosFrom_of_walk hwalk' (hreach v l hv hl) (Nat.lt_succ_self _)]
  · obtain ⟨-, -, -, hblk⟩ := hl.exists_walk
    change ((readBlock b).run s').1 = ((readBlock b).run s).1
    rw [readBlock_of_isBlock (hblk b hb), readBlock_of_isBlock (hreach v l hv hl b hb), hblocks]

/-! ### What an insertion does before its require -/

/-- The insertion adds to the size of its vertex before it requires a block: it is a push or an
unshift, or goes over to one because its pivot is no inner block. -/
def ListOp.ResizesFirst {z : BlockSz} : ListOp z → List UInt32 → Prop
  | push _ _, _ | unshift _ _, _ => True
  | insertPrev _ nextBlkno _, l => nextBlkno = invalidBlkno ∨ l.head? = some nextBlkno
  | insertNext _ prevBlkno _, l => prevBlkno = invalidBlkno ∨ l.getLast? = some prevBlkno
  | pop _, _ | shift _, _ | remove _ _, _ => False

/-- A require that fails: it throws, or returns `INVALID_BLOCKNO`. -/
def RequireFails {M : Type} [OverflowTable M] (s : Storage c M) (disk : CreateOutcome) : Prop :=
  ∀ b s', (require disk).run s = (.ok b, s') → b = invalidBlkno

/-- The numbers of the next group go past `2 ^ 32`, or end there while an overflow block is in a
list, and the file of the group is made. -/
def WrapsAround (s : FlatStorage c) (disk : CreateOutcome) (minVtxno : UInt32) : Prop :=
  isOverflow c s.superblk.supBlkno = true ∧
  s.files (overflowGroup c s.superblk.supBlkno) = false ∧ disk = .ok ∧
  (2 ^ 32 < s.superblk.supBlkno.toNat + c.groupSize ∨
    (s.superblk.supBlkno.toNat + c.groupSize = 2 ^ 32 ∧
      ∃ v l, subgraphKey c v = minVtxno ∧ ReadsList s v l ∧ ∃ b ∈ l, isFlat c b = false))

section

variable {M : Type} [OverflowTable M] {s s' : Storage c M} {disk : CreateOutcome}
  {vtx : Fin c.vertexIntervalWidth} {v : UInt32} {blk : Block c.blockSz} {e : Fault}

private theorem push_error (hvtx : vertexSlot s.superblk.getMinVtxno v = vtx.val)
    (hreq : (require disk).run (s.addSize vtx blk) = (.error e, s')) :
    (push disk v blk).run s = (.error e, s') := by
  rw [Storage.addSize] at hreq
  rw [push, Prog.run_bind_of_ok (getVertex_run hvtx), Prog.run_bind_of_ok (modifyVertex_apply ..),
    Prog.run_bind_of_error hreq]

private theorem unshift_error (hvtx : vertexSlot s.superblk.getMinVtxno v = vtx.val)
    (hreq : (require disk).run (s.addSize vtx blk) = (.error e, s')) :
    (unshift disk v blk).run s = (.error e, s') := by
  rw [Storage.addSize] at hreq
  rw [unshift, Prog.run_bind_of_ok (getVertex_run hvtx),
    Prog.run_bind_of_ok (modifyVertex_apply ..), Prog.run_bind_of_error hreq]

/-- The list `l` begins with the head of the vertex and ends with its tail. -/
def Storage.HasEnds (s : Storage c M) (vtx : Fin c.vertexIntervalWidth) (l : List UInt32) : Prop :=
  ∀ b, b ≠ invalidBlkno →
    (b = (s.superblk.vertices vtx).headBlkno ↔ l.head? = some b) ∧
      (b = (s.superblk.vertices vtx).tailBlkno ↔ l.getLast? = some b)

/-- **An insertion whose require fails** leaves what the require leaves, from the state with the new
size or from the state before. -/
theorem ListOp.run_error {op : ListOp c.blockSz} {l : List UInt32}
    (hl : s.HasEnds vtx l) (hvtx : vertexSlot s.superblk.getMinVtxno op.vtxno = vtx.val)
    (hnew : op.newBlk = some blk)
    (hfirst : op.ResizesFirst l → (require disk).run (s.addSize vtx blk) = (.error e, s'))
    (hlater : ¬op.ResizesFirst l → (require disk).run s = (.error e, s')) :
    (op.run disk).run s = (.error e, s') := by
  cases op with
  | push v b =>
    obtain rfl := Option.some.inj hnew
    exact Prog.run_bind_of_error (push_error hvtx (hfirst trivial))
  | unshift v b =>
    obtain rfl := Option.some.inj hnew
    exact Prog.run_bind_of_error (unshift_error hvtx (hfirst trivial))
  | insertPrev v pivot b =>
    obtain rfl := Option.some.inj hnew
    have hslot : vertexSlot s.superblk.getMinVtxno v = vtx.val := hvtx
    refine Prog.run_bind_of_error ?_
    rw [Nynn.insertPrev, Prog.run_bind_of_ok (getVertex_run hslot),
      Prog.run_bind_of_ok (readVertex_apply ..)]
    dsimp only
    by_cases hinv : pivot = invalidBlkno
    · have hreq := hfirst (Or.inl hinv)
      split_ifs
      · exact unshift_error hvtx hreq
      · exact push_error hvtx hreq
    · have hhead := (hl pivot hinv).1
      by_cases hpivot : l.head? = some pivot
      · rw [if_pos (hhead.mpr hpivot)]
        exact unshift_error hvtx (hfirst (Or.inr hpivot))
      · rw [if_neg (mt hhead.mp hpivot), if_neg hinv,
          Prog.run_bind_of_error (hlater (not_or.mpr ⟨hinv, hpivot⟩))]
  | insertNext v pivot b =>
    obtain rfl := Option.some.inj hnew
    have hslot : vertexSlot s.superblk.getMinVtxno v = vtx.val := hvtx
    refine Prog.run_bind_of_error ?_
    rw [Nynn.insertNext, Prog.run_bind_of_ok (getVertex_run hslot),
      Prog.run_bind_of_ok (readVertex_apply ..)]
    dsimp only
    by_cases hinv : pivot = invalidBlkno
    · have hreq := hfirst (Or.inl hinv)
      split_ifs
      · exact push_error hvtx hreq
      · exact unshift_error hvtx hreq
    · have htail := (hl pivot hinv).2
      by_cases hpivot : l.getLast? = some pivot
      · rw [if_pos (htail.mpr hpivot)]
        exact push_error hvtx (hfirst (Or.inr hpivot))
      · rw [if_neg (mt htail.mp hpivot), if_neg hinv,
          Prog.run_bind_of_error (hlater (not_or.mpr ⟨hinv, hpivot⟩))]
  | pop | shift | remove => cases hnew

end

/-! ### What a require that fails changes -/

section

variable {s s' : FlatStorage c} {minVtxno : UInt32} {disk : CreateOutcome}
  {vtx : Fin c.vertexIntervalWidth} {v : UInt32} {blk : Block c.blockSz} {e : Fault}

/-- The ends of a vertex and of its list. -/
theorem ends_of_isVertexList {l : List UInt32} (h : IsVertexList s v l)
    (hvtx : vertexSlot s.superblk.getMinVtxno v = vtx.val) : s.HasEnds vtx l := by
  intro b hb
  obtain ⟨tail, htail, hback⟩ := h.backwards
  rw [getTailBlkno_run hvtx, Prod.mk.injEq, Except.ok.injEq] at htail
  obtain ⟨vtx', hvtx', hwalk, -⟩ := h.reads.exists_walk
  obtain rfl : vtx' = vtx := Fin.ext (hvtx'.symm.trans hvtx)
  have hfirst {next : UInt32 → UInt32} {a : UInt32} {m : List UInt32}
      (hm : Walk next invalidBlkno a m) : b = a ↔ m.head? = some b := by
    cases m with
    | nil => simpa [hm.eq_nil_iff.mp rfl] using hb
    | cons x m => simp [hm.head_eq, eq_comm]
  refine ⟨hfirst hwalk, ?_⟩
  rw [htail.1, hfirst hback, List.head?_reverse]

/-- A require that fails throws. -/
theorem exists_error_of_requireFails {stack : List UInt32} (h : FreeBlocks s stack)
    (hfails : RequireFails s disk) :
    stack = [] ∧ ∃ e s', (require disk).run s = (.error e, s') := by
  rcases hrun : (require disk).run s with ⟨e | b, s'⟩
  · exact ⟨h.eq_nil_of_require_error hrun, _, _, rfl⟩
  · obtain ⟨stack', -, hblk, -⟩ := h.require hrun
    exact absurd (hfails b s' hrun) (ne_invalidBlkno_of_isBlock hblk)

private theorem freeBlocks_addSize {stack : List UInt32} (h : FreeBlocks s stack)
    (vtx : Fin c.vertexIntervalWidth) (blk : Block c.blockSz) :
    FreeBlocks (s.addSize vtx blk) stack :=
  ⟨h.free.setVertex vtx _, h.min_le, h.le_max⟩

/-- A require that fails does so also after the size of a vertex was changed. -/
private theorem requireFails_addSize (h : FreeBlocks s []) (hfails : RequireFails s disk)
    (vtx : Fin c.vertexIntervalWidth) (blk : Block c.blockSz) :
    RequireFails (s.addSize vtx blk) disk := by
  intro b s' hrun
  cases (freeBlocks_addSize h vtx blk).groupOutcome hrun with
  | made hgrow =>
    obtain ⟨s₁, hrun₁, -⟩ :=
      h.require_of_nil ⟨hgrow.le_supBlkno, hgrow.le_blknoMax, hgrow.no_file, rfl⟩
    exact hfails _ _ hrun₁

/-- No block changes hands while the numbers of the group do not go past `2 ^ 32`. -/
theorem unchanged_of_groupOutcome (h : FreeBlocks s [])
    (hout : GroupOutcome s disk (.error e) s') (hwraps : ¬WrapsAround s disk minVtxno) :
    Unchanged s s' minVtxno := by
  have hblk : ∀ v l, subgraphKey c v = minVtxno → ReadsList s v l →
      ∀ b ∈ l, s.isBlock b = true := fun v l _ hl =>
    let ⟨_, _, _, hblk⟩ := hl.exists_walk
    hblk
  cases hout with
  | refused => exact .refl s minVtxno
  | leftFile _ _ _ _ hsuper hblocks =>
    refine unchanged_of_reaches (by rw [hsuper]) hblocks (fun v l hv hl b hb => ?_)
      fun stack hstack => ?_
    · rw [Storage.isBlock, hsuper]
      exact hblk v l hv hl b hb
    · exact hstack.congr (by rw [hsuper]) (by rw [hsuper]) (by rw [hsuper])
        fun b _ => congrFun hblocks b
  | beyond hover hfile _ hsup hfit =>
    have hle : s.superblk.supBlkno.toNat + c.groupSize ≤ 2 ^ 32 :=
      not_lt.mp fun hlt => hwraps ⟨hover, hfile, rfl, Or.inl hlt⟩
    obtain rfl := hfit hle
    refine unchanged_of_reaches rfl rfl (fun v l hv hl b hb => ?_) fun stack hstack => ?_
    · have hb' := hblk v l hv hl b hb
      by_cases hflat : isFlat c b = true
      · rw [Storage.isBlock, hflat, Bool.true_or]
      · -- An overflow block: the numbers of the group end before `2 ^ 32`.
        have hne : s.superblk.supBlkno.toNat + c.groupSize ≠ 2 ^ 32 := fun heq =>
          hwraps ⟨hover, hfile, rfl, Or.inr ⟨heq, v, l, hv, hl, b, hb, by simpa using hflat⟩⟩
        have hone : (1 : UInt32).toNat = 1 := rfl
        have hpos := c.groupSize_pos
        have hsup' := congrArg UInt32.toNat hsup
        rw [UInt32.toNat_add, UInt32.toNat_add, c.toNat_overflowBlknoMask, hone] at hsup'
        have hlt := UInt32.lt_iff_toNat_lt.mp ((h.isBlock_iff b).mp hb')
        rw [Storage.isBlock, Bool.or_eq_true] at hb' ⊢
        refine Or.inr ?_
        have hover' := hb'.resolve_left hflat
        rw [Bool.and_eq_true, decide_eq_true_iff] at hover' ⊢
        refine ⟨hover'.1, ?_⟩
        rw [UInt32.lt_iff_toNat_lt, hsup']
        omega
    · obtain rfl := h.free.unique hstack
      exact ⟨h.free.chain, List.nodup_nil, by simp, h.free.count⟩

/-- A block that was out of reach before is given away, or one within reach is lost. -/
theorem not_unchanged_of_wrapsAround {s₀ : FlatStorage c} (h : FreeBlocks s [])
    (hsup : s₀.superblk.supBlkno = s.superblk.supBlkno) (hfiles : s₀.files = s.files)
    (hout : GroupOutcome s₀ disk (.error e) s') (hwraps : WrapsAround s disk minVtxno) :
    ¬Unchanged s s' minVtxno := by
  intro hsame
  obtain ⟨hover, hfile, rfl, hwrap⟩ := hwraps
  rw [← hsup] at hover hwrap
  rw [← hsup, ← hfiles] at hfile
  cases hout with
  | refused hcause =>
    rcases hcause with hnot | hfile' | ⟨errno, herr⟩
    · rw [hover] at hnot
      cases hnot
    · rw [hfile] at hfile'
      cases hfile'
    · cases herr
  | leftFile _ _ hok => exact hok rfl
  | beyond _ _ _ hsup' hfit hfree =>
    rcases hwrap with hlt | ⟨heq, v, l, hv, hl, b, hb, hflat⟩
    · have hnil := (hsame.free [] h.free).unique (hfree hlt)
      have hlen := congrArg List.length hnil
      rw [length_blknoRange, List.length_nil] at hlen
      omega
    · obtain ⟨-, -, -, hblk⟩ := hl.exists_walk
      have hzero : s'.superblk.supBlkno.toNat = 0 := by
        have hone : (1 : UInt32).toNat = 1 := rfl
        have hpos := c.groupSize_pos
        rw [hsup', UInt32.toNat_add, UInt32.toNat_add, c.toNat_overflowBlknoMask, hone]
        omega
      have hnot : s'.isBlock b = false := by
        have hlt : ¬b < s'.superblk.supBlkno := by
          rw [UInt32.lt_iff_toNat_lt, hzero]
          exact Nat.not_lt_zero _
        simp [Storage.isBlock, hflat, hlt]
      have hread := hsame.blocks v l hv hl b hb
      change ((readBlock b).run s').1 = ((readBlock b).run s).1 at hread
      rw [readBlock_of_isBlock (hblk b hb), readBlock,
        Prog.run_bind_of_ok (getBlock_of_not_isBlock hnot)] at hread
      cases hread

/-- The new size of the vertex stays. -/
private theorem not_unchanged_of_addSize (h : FreeBlocks s [])
    (hkey : subgraphKey c v = minVtxno)
    (hvtx : vertexSlot s.superblk.getMinVtxno v = vtx.val) (hsize : blk.contentSize ≠ 0)
    (hout : GroupOutcome (s.addSize vtx blk) disk (.error e) s') :
    ¬Unchanged s s' minVtxno := by
  intro hsame
  have hvertices : s'.superblk.vertices = (s.addSize vtx blk).superblk.vertices := by
    cases hout with
    | refused => rfl
    | leftFile _ _ _ _ hsuper => rw [hsuper]
    | beyond _ _ _ _ hfit hfree =>
      by_cases hle : (s.addSize vtx blk).superblk.supBlkno.toNat + c.groupSize ≤ 2 ^ 32
      · rw [hfit hle]
        rfl
      · exfalso
        have hlt := not_le.mp hle
        have hlen := congrArg List.length ((hsame.free [] h.free).unique (hfree hlt))
        rw [length_blknoRange, List.length_nil] at hlen
        omega
  have hmin : s'.superblk.getMinVtxno = s.superblk.getMinVtxno := by
    rw [SuperBlock.getMinVtxno, SuperBlock.getMinVtxno, hvertices]
    by_cases hzero : (⟨0, c.vertexIntervalWidth_pos⟩ : Fin c.vertexIntervalWidth) = vtx
    · rw [hzero, Storage.addSize, vertices_setVertex, Function.update_self]
      rfl
    · rw [Storage.addSize, vertices_setVertex, Function.update_of_ne hzero]
  have hread := hsame.size v hkey
  rw [getSize_run (hmin ▸ hvtx), getSize_run hvtx, Except.ok.injEq, hvertices, Storage.addSize,
    vertices_setVertex, Function.update_self] at hread
  refine hsize ?_
  have hadd : (s.superblk.vertices vtx).size + blk.contentSize =
      (s.superblk.vertices vtx).size + 0 := hread.trans (UInt32.add_zero _).symm
  exact (UInt32.add_right_inj _).mp hadd

end

/-- In the store in which every block stays mapped an insertion whose require fails leaves the
subgraph as it was if and only if the new data is empty or the insertion requires its block first,
and no numbers of the next group go past `2 ^ 32`. -/
theorem failedInsertion_flat_iff {s : FlatStorage c} {minVtxno : UInt32}
    {op : ListOp c.blockSz} {blk : Block c.blockSz} {l : List UInt32} {disk : CreateOutcome}
    (h : WellFormed s minVtxno) (hkey : subgraphKey c op.vtxno = minVtxno)
    (hl : ReadsList s op.vtxno l) (hnew : op.newBlk = some blk) (hfails : RequireFails s disk) :
    (∀ r s', (op.run disk).run s = (r, s') → Unchanged s s' minVtxno) ↔
      (blk.contentSize = 0 ∨ ¬op.ResizesFirst l) ∧ ¬WrapsAround s disk minVtxno := by
  obtain ⟨stack, hfree⟩ := h.free
  obtain ⟨rfl, e, s₁, hrun⟩ := exists_error_of_requireFails hfree hfails
  obtain ⟨l', hlist⟩ := h.lists op.vtxno hkey
  obtain rfl := hlist.reads.unique hl
  obtain ⟨vtx, hvtx, -⟩ := hl.exists_walk
  have hends := ends_of_isVertexList hlist hvtx
  obtain ⟨-, e₂, s₂, hrun₂⟩ := exists_error_of_requireFails (freeBlocks_addSize hfree vtx blk)
    (requireFails_addSize hfree hfails vtx blk)
  by_cases hfirst : op.ResizesFirst l'
  · have hop := ListOp.run_error hends hvtx hnew (fun _ => hrun₂) fun hlater => absurd hfirst hlater
    have hout := (freeBlocks_addSize hfree vtx blk).groupOutcome hrun₂
    have hsup : (s.addSize vtx blk).superblk.supBlkno = s.superblk.supBlkno := rfl
    constructor
    · intro hunchanged
      have hsame := hunchanged _ _ hop
      refine ⟨Or.inl (by_contra fun hsize => ?_), fun hwraps => ?_⟩
      · exact not_unchanged_of_addSize hfree hkey hvtx hsize hout hsame
      · exact not_unchanged_of_wrapsAround hfree hsup rfl hout hwraps hsame
    · rintro ⟨hsize, hwraps⟩ r s' hrun'
      have hsize' : blk.contentSize = 0 := hsize.resolve_right (not_not.mpr hfirst)
      have hadd : s.addSize vtx blk = s := by
        simp [Storage.addSize, Storage.setVertex, Vertex.resize, hsize']
      rw [hop, Prod.mk.injEq] at hrun'
      obtain ⟨-, rfl⟩ := hrun'
      rw [hadd] at hout
      exact unchanged_of_groupOutcome hfree hout hwraps
  · have hop := ListOp.run_error hends hvtx hnew (fun h => absurd h hfirst) fun _ => hrun
    have hout := hfree.groupOutcome hrun
    constructor
    · intro hunchanged
      exact ⟨Or.inr hfirst, fun hwraps =>
        not_unchanged_of_wrapsAround hfree rfl rfl hout hwraps (hunchanged _ _ hop)⟩
    · rintro ⟨-, hwraps⟩ r s' hrun'
      rw [hop, Prod.mk.injEq] at hrun'
      obtain ⟨-, rfl⟩ := hrun'
      exact unchanged_of_groupOutcome hfree hout hwraps

/-! ### The table -/

section Table

variable {s : Storage c (Overflow c)} {minVtxno : UInt32} {disk : CreateOutcome}
  {vtx : Fin c.vertexIntervalWidth} {blk : Block c.blockSz} {op : ListOp c.blockSz}
  {l : List UInt32}

theorem WellFormed.congr {t t' : FlatStorage c} (h : WellFormed t minVtxno)
    (hsuper : t'.superblk = t.superblk) (hblocks : t'.blocks = t.blocks) :
    WellFormed t' minVtxno := by
  obtain ⟨stack, hfree⟩ := h.free
  refine ⟨⟨stack, hfree.congr hsuper hblocks⟩, fun v hv => ?_⟩
  obtain ⟨l, hl⟩ := h.lists v hv
  exact ⟨l, hl.congr hsuper hblocks⟩

/-- The list operations keep a subgraph with the table well formed. -/
theorem TableRun.wellFormed (halign : c.overflowBlknoMin.toNat % c.groupSize = 0)
    (hmin : minVtxno.toNat + c.vertexIntervalWidth < 2 ^ 32)
    (h : TableRun ListOp.KeepsLists minVtxno s) : s.Sound ∧ WellFormed s.flat minVtxno := by
  obtain ⟨t, given, ht, hsim⟩ := h.exists_flat halign hmin
  exact ⟨hsim.healed.sound, (ht.wellFormed hmin).congr hsim.superblk hsim.blocks⟩

theorem Storage.Sound.setVertex (h : s.Sound) (vtx : Fin c.vertexIntervalWidth) (v : Vertex) :
    (s.setVertex vtx v).Sound :=
  Sim.setSuperBlock (f := fun sb => { sb with vertices := Function.update sb.vertices vtx v }) h
    fun _ => rfl

/-- A require without a free block that fails does so in the store in which every block stays
mapped. -/
private theorem requireFails_flat (h : s.Sound)
    (hhead : s.superblk.headBlkno = invalidBlkno) (hfails : RequireFails s disk) :
    RequireFails s.flat disk := by
  intro b t' hrun
  rw [require_of_nil disk hhead (Sim.aligned h), Prod.mk.injEq] at hrun
  exact hfails b _ (Prod.ext hrun.1 rfl)

/-- An insertion that finds no free block and no new one does what it does in the store in which
every block stays mapped. -/
private theorem run_of_requireFails (h : s.Sound) (hfree : FreeBlocks s.flat [])
    (hends : s.HasEnds vtx l) (hvtx : vertexSlot s.superblk.getMinVtxno op.vtxno = vtx.val)
    (hnew : op.newBlk = some blk) (hfails : RequireFails s disk) :
    (op.run disk).run s.flat = (((op.run disk).run s).1, ((op.run disk).run s).2.flat) := by
  have hhead : s.superblk.headBlkno = invalidBlkno := hfree.free.nil_iff.mp rfl
  have hfails' := requireFails_flat h hhead hfails
  obtain ⟨-, e, t₁, hrun⟩ := exists_error_of_requireFails hfree hfails'
  obtain ⟨-, e₂, t₂, hrun₂⟩ := exists_error_of_requireFails (freeBlocks_addSize hfree vtx blk)
    (requireFails_addSize hfree hfails' vtx blk)
  have hflat := require_of_nil disk hhead (Sim.aligned h)
  have hflat₂ := require_of_nil (s := s.addSize vtx blk) disk hhead (Sim.aligned h)
  have hrunFlat₂ : (require disk).run (s.addSize vtx blk).flat = (.error e₂, t₂) := hrun₂
  rw [hrun, Prod.mk.injEq] at hflat
  rw [hrunFlat₂, Prod.mk.injEq] at hflat₂
  have htable : (require disk).run s = (.error e, ((require disk).run s).2) :=
    Prod.ext hflat.1.symm rfl
  have htable₂ : (require disk).run (s.addSize vtx blk) =
      (.error e₂, ((require disk).run (s.addSize vtx blk)).2) := Prod.ext hflat₂.1.symm rfl
  by_cases hfirst : op.ResizesFirst l
  · have hop := ListOp.run_error hends hvtx hnew (fun _ => htable₂) fun hlater =>
      absurd hfirst hlater
    have hop' := ListOp.run_error (s := s.flat) hends hvtx hnew (fun _ => hrun₂) fun hlater =>
      absurd hfirst hlater
    rw [hop, hop', hflat₂.2]
  · have hop := ListOp.run_error hends hvtx hnew (fun h => absurd h hfirst) fun _ => htable
    have hop' := ListOp.run_error (s := s.flat) hends hvtx hnew (fun h => absurd h hfirst) fun _ =>
      hrun
    rw [hop, hop', hflat.2]

/-- A require that does not get the head of the free list leaves the count too low. -/
private theorem not_unchanged_of_not_maps {stack : List UInt32} {s' : Storage c (Overflow c)}
    (hfree : FreeBlocks s.flat stack)
    (hsuper : s'.superblk.numOfFreeBlks = s.superblk.numOfFreeBlks - 1) :
    ¬Unchanged s.flat s'.flat minVtxno := by
  intro hsame
  have hcount : s'.superblk.numOfFreeBlks = s.superblk.numOfFreeBlks :=
    (hsame.free stack hfree.free).count.trans hfree.free.count.symm
  exact absurd (sub_eq_self.mp (hsuper.symm.trans hcount)) (by decide)

end Table

/-- **Failed insertions.** On a well-formed subgraph, an insertion whose require fails leaves the
subgraph as it was if and only if no block is free, the new data is empty or the insertion requires
its block first, and no numbers of the next group go past `2 ^ 32`. -/
theorem failedInsertion_unchanged_iff {s : Storage c (Overflow c)} {minVtxno : UInt32}
    {op : ListOp c.blockSz} {blk : Block c.blockSz} {l : List UInt32} {disk : CreateOutcome}
    (hs : s.Sound) (h : WellFormed s.flat minVtxno) (hkey : subgraphKey c op.vtxno = minVtxno)
    (hl : ReadsList s.flat op.vtxno l) (hnew : op.newBlk = some blk) (hfails : RequireFails s disk) :
    (∀ r s', (op.run disk).run s = (r, s') → Unchanged s.flat s'.flat minVtxno) ↔
      s.superblk.headBlkno = invalidBlkno ∧ (blk.contentSize = 0 ∨ ¬op.ResizesFirst l) ∧
        ¬WrapsAround s.flat disk minVtxno := by
  obtain ⟨stack, hfree⟩ := h.free
  obtain ⟨l', hlist⟩ := h.lists op.vtxno hkey
  obtain rfl := hlist.reads.unique hl
  obtain ⟨vtx, hvtx, -⟩ := hl.exists_walk
  have hends : s.HasEnds vtx l' := ends_of_isVertexList hlist hvtx
  by_cases hhead : s.superblk.headBlkno = invalidBlkno
  · obtain rfl : stack = [] := hfree.free.nil_iff.mpr hhead
    have hflat := run_of_requireFails hs hfree hends hvtx hnew hfails
    have hiff := failedInsertion_flat_iff h hkey hl hnew (requireFails_flat hs hhead hfails)
    rw [and_iff_right hhead, ← hiff]
    constructor
    · intro hall r t' hrun
      rw [hflat, Prod.mk.injEq] at hrun
      obtain ⟨-, rfl⟩ := hrun
      exact hall _ _ rfl
    · intro hall r s' hrun
      rw [hrun] at hflat
      exact hall r _ hflat
  · -- The head of the free list is not got, and the free block is counted as taken.
    refine ⟨fun hall => ?_, fun hcond => absurd hcond.1 hhead⟩
    exfalso
    have hnot : ¬s.Maps s.superblk.headBlkno := by
      intro hmaps
      cases stack with
      | nil => exact hhead (hfree.free.nil_iff.mp rfl)
      | cons top stack =>
        obtain ⟨s₁, hrun⟩ := hs.require_of_maps hfree.free hmaps disk
        exact ne_invalidBlkno_of_isBlock (hfree.free.isBlock top List.mem_cons_self)
          (hfails top s₁ hrun)
    obtain ⟨e, s₁, hrun, hsuper⟩ := hs.require_of_not_maps hfree.free hhead hnot disk
    obtain ⟨e₂, s₂, hrun₂, hsuper₂⟩ := (hs.setVertex vtx _).require_of_not_maps
      (freeBlocks_addSize hfree vtx blk).free hhead hnot disk
    by_cases hfirst : op.ResizesFirst l'
    · have hop := ListOp.run_error hends hvtx hnew (fun _ => hrun₂) fun hlater =>
        absurd hfirst hlater
      exact not_unchanged_of_not_maps hfree (congrArg SuperBlock.numOfFreeBlks hsuper₂)
        (hall _ _ hop)
    · have hop := ListOp.run_error hends hvtx hnew (fun h => absurd h hfirst) fun _ => hrun
      exact not_unchanged_of_not_maps hfree (congrArg SuperBlock.numOfFreeBlks hsuper)
        (hall _ _ hop)

/-- A failure of the disk. -/
private def noSpace : CreateOutcome := .openFails "No space left on device"

/-- The small subgraph with the blocks `0` and `1` in the list of the vertex `0`, and none free. -/
def fullTable : Storage Config.small (Overflow Config.small) :=
  tablePushed (tablePushed tableStorage)

private theorem requireFails_noSpace : RequireFails fullTable noSpace := by
  have hrun : (require noSpace).run fullTable =
      (.error (.exception "No space left on device"), ((require noSpace).run fullTable).2) :=
    Prod.ext (by decide +kernel) rfl
  intro b s' hrun'
  rw [hrun] at hrun'
  cases hrun'

private theorem fullTable_wellFormed : fullTable.Sound ∧ WellFormed fullTable.flat 0 :=
  tablePushedTwice_run.wellFormed (by decide) (by decide)

/-- The small subgraph without a free block: a block with one byte is inserted before block `1`. -/
theorem failedInsertion_unchanged_iff_small : Unchanged fullTable.flat
    (((ListOp.insertPrev 0 1 fun _ => 1 : ListOp Config.small.blockSz).run noSpace).run
      fullTable).2.flat 0 := by
  have hl : ReadsList fullTable.flat
      (ListOp.insertPrev 0 1 fun _ => 1 : ListOp Config.small.blockSz).vtxno [0, 1] :=
    ⟨3, by decide +kernel⟩
  refine (failedInsertion_unchanged_iff fullTable_wellFormed.1 fullTable_wellFormed.2 (by decide) hl
    rfl requireFails_noSpace).mpr ⟨by decide +kernel, Or.inr ?_, ?_⟩ _ _ rfl
  · rintro (hinv | hhead)
    · exact absurd hinv (by decide)
    · exact absurd hhead (by decide)
  · rintro ⟨-, -, hok, -⟩
    cases hok

/-- The same subgraph: a block is pushed, and the size of the vertex has changed. -/
theorem failedInsertion_unchanged_false_of_push : fullTable.Sound ∧ WellFormed fullTable.flat 0 ∧
    RequireFails fullTable noSpace ∧
    ¬∀ r s', ((ListOp.push 0 fun _ => 1 : ListOp Config.small.blockSz).run noSpace).run
      fullTable = (r, s') → Unchanged fullTable.flat s'.flat 0 := by
  refine ⟨fullTable_wellFormed.1, fullTable_wellFormed.2, requireFails_noSpace, fun hall => ?_⟩
  have hsize := (hall _ _ rfl).size 0 (by decide)
  revert hsize
  decide +kernel

end Nynn
