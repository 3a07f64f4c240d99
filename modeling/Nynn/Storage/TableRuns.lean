import Nynn.Storage.SubgraphRuns
import Nynn.Storage.Transparency

/-!
# Runs of the list operations on the table

While the calls use no stale pointer, a run of the list operations on a storage with the table of
overflow groups goes, call by call, like a run on the store in which every block stays mapped, and
what is read of the lists is the same. So the lists are deques here as well.

Source: `nynn_mm_subgraph_set.h`, `nynn_mm_subgraph_storage.h`.

## Main definitions

* `Nynn.TableRun`: the runs of the list operations and of reads on the table.

## Main results

* `Nynn.tableRun_lists`: every list is a deque.
-/

namespace Nynn

open Program LinkedRing

variable {c : Config}

/-! ### What is read of a list -/

/-- The loop of `readAllBlknos` writes nothing, and holds no pointer while it gets the next one. -/
theorem readBlknosFrom_rel (fuel : ℕ) (a : UInt32) :
    Rel (Sim (c := c)) (readBlknosFrom fuel a) (readBlknosFrom fuel a)
      (fun x y s t => x = y ∧ Sim s t) NotStale := by
  induction fuel generalizing a with
  | zero => exact Rel.pure fun _ _ h => ⟨rfl, h⟩
  | succ n ih =>
    have hread := (readBlock_rel (F := fun _ : FlatStorage c => True) a).mono
      (fun _ _ h => ⟨h, trivial⟩) fun _ _ _ _ h => h
    exact Rel.ite (fun _ => Rel.pure fun _ _ h => ⟨rfl, h⟩) fun _ =>
      Rel.bind_eq hread fun blk => Rel.bind_eq (ih blk.getNext) fun rest =>
        Rel.pure fun _ _ h => ⟨rfl, h⟩

/-- What is read of a vertex. -/
theorem vertexField_rel (f : Vertex → UInt32) (v : UInt32) :
    Rel (Sim (c := c)) (getVertex v >>= fun i => readVertex i >>= fun w => pure (f w))
      (getVertex v >>= fun i => readVertex i >>= fun w => pure (f w))
      (fun x y s t => x = y ∧ Sim s t) NotStale :=
  Rel.bind_eq ((getVertex_rel (F := fun _ => True) v).mono (fun _ _ h => ⟨h, trivial⟩)
    fun _ _ _ _ h => h) fun i => Rel.bind_eq (readVertex_rel i) fun _ =>
      Rel.pure fun _ _ h => ⟨rfl, h.1⟩

theorem readAllBlknos_rel (fuel : ℕ) (v : UInt32) :
    Rel (Sim (c := c)) (readAllBlknos fuel v) (readAllBlknos fuel v)
      (fun x y s t => x = y ∧ Sim s t) NotStale :=
  Rel.bind_eq (vertexField_rel Vertex.headBlkno v) fun a => readBlknosFrom_rel fuel a

namespace Sim

variable {s : Storage c (Overflow c)} {t : FlatStorage c} {v b : UInt32} {l : List UInt32}

theorem readAllBlknos_fst (h : Sim s t) (fuel : ℕ) (v : UInt32) :
    ((readAllBlknos fuel v).run s).1 = ((readAllBlknos fuel v).run t).1 :=
  (readAllBlknos_rel fuel v).run_fst (fun _ _ _ _ h => h.1) h

theorem readsList_iff (h : Sim s t) : ReadsList s v l ↔ ReadsList t v l := by
  simp only [ReadsList, h.readAllBlknos_fst]

theorem readBlock_fst (h : Sim s t) (b : UInt32) :
    ((readBlock b).run s).1 = ((readBlock b).run t).1 :=
  (readBlock_rel (F := fun _ => True) b).run_fst (fun _ _ _ _ h => h.1) ⟨h, trivial⟩

/-- The list of a vertex is the one of the store in which every block stays mapped. -/
theorem isVertexList (h : Sim s t) (hl : IsVertexList t v l) : IsVertexList s v l :=
  hl.of_reads h.superblk h.blocks (h.readsList_iff.mpr hl.reads) fun b hb =>
    (h.readBlock_fst b).trans (hl.readable b hb)

end Sim

/-! ### Runs -/

/-- The runs from a formatted subgraph whose steps read any blocks, or are operations on its
vertices with allowed arguments that meet the condition `P` and whose require succeeds. -/
inductive TableRun (P : Storage c (Overflow c) → ListOp c.blockSz → List UInt32 → Prop)
    (minVtxno : UInt32) : Storage c (Overflow c) → Prop
  | format {s : Storage c (Overflow c)} (h : formatOverflow c minVtxno = (.ok (), s)) :
      TableRun P minVtxno s
  | read {s s' : Storage c (Overflow c)} {b : UInt32} {r : Except Fault (Block c.blockSz)}
      (h : TableRun P minVtxno s) (hrun : (readBlock b).run s = (r, s')) : TableRun P minVtxno s'
  | update {s s' : Storage c (Overflow c)} {op : ListOp c.blockSz} {disk : CreateOutcome}
      {l : List UInt32} {r : Except Fault (Option UInt32)} (h : TableRun P minVtxno s)
      (hkey : subgraphKey c op.vtxno = minVtxno) (hl : ReadsList s op.vtxno l)
      (hallowed : op.Allowed l) (hP : P s op l)
      (hreq : op.newBlk.isSome = true → ∃ b s₁, (require disk).run s = (.ok b, s₁))
      (hrun : (op.run disk).run s = (r, s')) : TableRun P minVtxno s'

theorem TableRun.next {P : Storage c (Overflow c) → ListOp c.blockSz → List UInt32 → Prop}
    {minVtxno : UInt32} {s : Storage c (Overflow c)} {l : List UInt32}
    (h : TableRun P minVtxno s) (op : ListOp c.blockSz) (disk : CreateOutcome)
    (hkey : subgraphKey c op.vtxno = minVtxno) (hl : ReadsList s op.vtxno l)
    (hallowed : op.Allowed l) (hP : P s op l)
    (hreq : op.newBlk.isSome = true → ∃ b s₁, (require disk).run s = (.ok b, s₁)) :
    TableRun P minVtxno ((op.run disk).run s).2 :=
  .update h hkey hl hallowed hP hreq rfl

/-- The operation is no pop of the only block, and the release in it uses no stale pointer. -/
def ListOp.KeepsLists (s : Storage c (Overflow c)) (op : ListOp c.blockSz) (l : List UInt32) :
    Prop :=
  op.NotPopLast l ∧ ∀ b ∈ op.released s, ReleaseSafe s b

instance (s : Storage c (Overflow c)) (op : ListOp c.blockSz) :
    Decidable (∀ b ∈ op.released s, ReleaseSafe s b) :=
  Option.decidableForallMem _

section

variable {s : Storage c (Overflow c)} {t : FlatStorage c} {op : ListOp c.blockSz}
  {disk : CreateOutcome} {minVtxno : UInt32}

/-- In a run on the store in which every block stays mapped a require is safe. -/
private theorem SubgraphRun.requireSafe {given : UInt32 → Block c.blockSz}
    (h : SubgraphRun ListOp.NotPopLast minVtxno t given)
    (hmin : minVtxno.toNat + c.vertexIntervalWidth < 2 ^ 32) : RequireSafe t := by
  obtain ⟨-, d, hd, -⟩ := h.exists_deques hmin
  exact hd.refines.free.requireSafe

/-- Safety of an update depends on the superblock and on the bytes only. -/
theorem Sim.safe (h : Sim s t) (hrequire : RequireSafe t)
    (hreleased : ∀ b ∈ op.released s, ReleaseSafe s b) : op.Safe t := by
  have hcall : StoreOp.Safe t (.require .ok : StoreOp c.blockSz) := hrequire
  have hsafe : StoreOp.Safe s (.update .ok op) :=
    ⟨fun _ => hcall.congr h.superblk.symm h.blocks.symm, hreleased⟩
  exact hsafe.congr h.superblk h.blocks

/-- A require that succeeds does so on the other storage. -/
theorem Sim.require_of_safe (h : Sim s t) (hrequire : RequireSafe t)
    (hreq : ∃ b s₁, (require disk).run s = (.ok b, s₁)) :
    ∃ b t₁, (require disk).run t = (.ok b, t₁) := by
  obtain ⟨b, s₁, hrun⟩ := hreq
  obtain ⟨t₁, ht₁, -⟩ := (require_rel disk).of_ok_left ⟨h, hrequire⟩ hrun
  exact ⟨b, t₁, ht₁⟩

/-- A read leaves the store in which every block stays mapped as it is. -/
private theorem readBlock_snd (t : FlatStorage c) (b : UInt32) : ((readBlock b).run t).2 = t := by
  rcases Bool.eq_false_or_eq_true (t.isBlock b) with hblk | hblk
  · rw [readBlock_of_isBlock hblk]
  · rw [readBlock, Prog.run_bind_of_ok (getBlock_of_not_isBlock hblk)]
    rfl

/-- Each state of a run is the state of a run on the store in which every block stays mapped. -/
theorem TableRun.exists_flat (halign : c.overflowBlknoMin.toNat % c.groupSize = 0)
    (hmin : minVtxno.toNat + c.vertexIntervalWidth < 2 ^ 32)
    (h : TableRun ListOp.KeepsLists minVtxno s) :
    ∃ t given, SubgraphRun ListOp.NotPopLast minVtxno t given ∧ Sim s t := by
  induction h with
  | @format s h =>
    obtain ⟨hnew, hsim⟩ := format_sim halign minVtxno
    rw [h] at hnew hsim
    exact ⟨_, fun _ => 0, .format _ (Prod.ext hnew.symm rfl), hsim⟩
  | @read s s' b r _ hrun ih =>
    obtain ⟨t, given, ht, hsim⟩ := ih
    refine ⟨t, given, ht, ?_⟩
    have hsnd := (readBlock_rel (F := fun _ => True) b).run_snd (R := Sim) (fun _ _ _ _ h => h.2)
      (fun _ _ _ h => h.2) ⟨hsim, trivial⟩
    rwa [hrun, readBlock_snd] at hsnd
  | @update s s' op disk l r _ hkey hl hallowed hP hreq hrun ih =>
    obtain ⟨t, given, ht, hsim⟩ := ih
    have hrequire := ht.requireSafe hmin
    refine ⟨_, _, ht.next hkey (hsim.readsList_iff.mp hl) hallowed hP.1 fun hnew =>
      hsim.require_of_safe hrequire (hreq hnew), ?_⟩
    have hsnd := (ListOp.run_rel disk op).run_snd (R := Sim) (fun _ _ _ _ h => h.2)
      (fun _ _ _ h => h.2) ⟨hsim, hsim.safe hrequire hP.2⟩
    rwa [hrun] at hsnd

end

/-- **The lists are deques on the table.** Along a run from a formatted subgraph that is not the
last one, in which no pop meets a list with exactly one block and no release uses a stale pointer,
every vertex has a list, and an operation on it returns and does to the list what the deque
operation of its name does. -/
theorem tableRun_lists {minVtxno : UInt32} {s : Storage c (Overflow c)}
    (halign : c.overflowBlknoMin.toNat % c.groupSize = 0)
    (hmin : minVtxno.toNat + c.vertexIntervalWidth < 2 ^ 32)
    (h : TableRun ListOp.KeepsLists minVtxno s) (v : UInt32) (hv : subgraphKey c v = minVtxno) :
    ∃ l, IsVertexList s v l ∧ ∀ (op : ListOp c.blockSz) (disk : CreateOutcome), op.vtxno = v →
      op.Allowed l → op.KeepsLists s l →
      (op.newBlk.isSome = true → ∃ b s₁, (require disk).run s = (.ok b, s₁)) →
      ∃ r s', (op.run disk).run s = (.ok r, s') ∧ r.isSome = op.newBlk.isSome ∧
        IsVertexList s' v (op.listAfter (r.getD invalidBlkno) l) := by
  obtain ⟨t, given, ht, hsim⟩ := h.exists_flat halign hmin
  have hrequire := ht.requireSafe hmin
  obtain ⟨l, hl, hops⟩ := subgraphRun_lists ht hmin v hv
  refine ⟨l, hsim.isVertexList hl, fun op disk hvtx hallowed hcond hreq => ?_⟩
  obtain ⟨r, t', hrun, hsome, hl'⟩ := hops op disk hvtx hallowed hcond.1 fun hnew =>
    hsim.require_of_safe hrequire (hreq hnew)
  obtain ⟨s', hrun', hsim'⟩ :=
    (ListOp.run_rel disk op).of_ok_right ⟨hsim, hsim.safe hrequire hcond.2⟩ hrun
  exact ⟨r, s', hrun', hsome, hsim'.isVertexList hl'⟩

/-! ### A small subgraph -/

/-- A new small subgraph with the table. -/
def tableStorage : Storage Config.small (Overflow Config.small) :=
  (formatOverflow Config.small 0).2

/-- A small subgraph after a push to the vertex `0`. -/
def tablePushed (s : Storage Config.small (Overflow Config.small)) :
    Storage Config.small (Overflow Config.small) :=
  (((ListOp.push 0 0 : ListOp Config.small.blockSz).run .ok).run s).2

section

variable {P : Storage Config.small (Overflow Config.small) → ListOp Config.small.blockSz →
  List UInt32 → Prop}

private theorem tableStorage_run : TableRun P 0 tableStorage :=
  .format (Prod.ext (by decide +kernel) rfl)

private theorem TableRun.pushed {s : Storage Config.small (Overflow Config.small)}
    {l : List UInt32} (h : TableRun P 0 s) (hl : ReadsList s 0 l) (hP : P s (.push 0 0) l)
    (b : UInt32) (hreq : ((require .ok).run s).1 = .ok b) : TableRun P 0 (tablePushed s) :=
  h.next (.push 0 0) .ok (by decide) hl trivial hP fun _ => ⟨b, _, Prod.ext hreq rfl⟩

end

theorem tablePushedTwice_run :
    TableRun ListOp.KeepsLists 0 (tablePushed (tablePushed tableStorage)) := by
  have h := (tableStorage_run (P := ListOp.KeepsLists)).pushed (l := []) ⟨1, by decide +kernel⟩
    ⟨trivial, by decide +kernel⟩ 0 (by decide +kernel)
  exact h.pushed (l := [0]) ⟨2, by decide +kernel⟩ ⟨trivial, by decide +kernel⟩ 1
    (by decide +kernel)

/-- In the small subgraph after three pushes, the last one of a block of a new group, the vertex `0`
has a list, and a shift drops its head. -/
theorem tableRun_lists_small :
    ∃ l, IsVertexList (tablePushed (tablePushed (tablePushed tableStorage))) 0 l ∧ ∃ r s',
      ((ListOp.shift 0 : ListOp Config.small.blockSz).run .ok).run
        (tablePushed (tablePushed (tablePushed tableStorage))) = (.ok r, s') ∧
          IsVertexList s' 0 l.tail := by
  have hrun := tablePushedTwice_run.pushed (l := [0, 1]) ⟨3, by decide +kernel⟩
    ⟨trivial, by decide +kernel⟩ 2 (by decide +kernel)
  obtain ⟨l, hl, hops⟩ := tableRun_lists (by decide) (by decide) hrun 0 (by decide)
  obtain ⟨r, s', hstep, -, hlist⟩ := hops (.shift 0) .ok rfl trivial
    ⟨trivial, by decide +kernel⟩ (by simp [ListOp.newBlk])
  exact ⟨l, hl, r, s', hstep, hlist⟩

/-- Without the condition on pop the lists are lost: after a push and a pop the head of the vertex
is still block `0`, and its tail is invalid. -/
theorem tableRun_lists_false_of_pop :
    ¬∀ s : Storage Config.small (Overflow Config.small), TableRun (fun _ _ _ => True) 0 s →
      ∀ v, subgraphKey Config.small v = 0 → ∃ l, IsVertexList s v l := by
  intro hall
  have hpushed := (tableStorage_run (P := fun _ _ _ => True)).pushed (l := [])
    ⟨1, by decide +kernel⟩ trivial 0 (by decide +kernel)
  have hreads : ReadsList (tablePushed tableStorage) 0 [0] := ⟨2, by decide +kernel⟩
  obtain ⟨s, hs⟩ : ∃ s, s = (((ListOp.pop 0 : ListOp Config.small.blockSz).run .ok).run
    (tablePushed tableStorage)).2 := ⟨_, rfl⟩
  have hpopped : TableRun (fun _ _ _ => True) 0 s := by
    rw [hs]
    exact hpushed.next (.pop 0) .ok (by decide) hreads trivial trivial (by simp [ListOp.newBlk])
  obtain ⟨l, hl⟩ := hall s hpopped 0 (by decide)
  have hvtx : vertexSlot s.superblk.getMinVtxno 0 =
      (⟨0, by decide⟩ : Fin Config.small.vertexIntervalWidth).val := by
    rw [hs]
    decide +kernel
  have hends : (s.superblk.vertices ⟨0, by decide⟩).tailBlkno = invalidBlkno ∧
      (s.superblk.vertices ⟨0, by decide⟩).headBlkno = 0 := by
    rw [hs]
    decide +kernel
  have hempty := hl.tail_invalid_iff.mp (by rw [getTailBlkno_run hvtx, hends.1])
  have hhead := hl.head_invalid_iff.mpr hempty
  rw [getHeadBlkno_run hvtx, hends.2] at hhead
  have hzero : (0 : UInt32) = invalidBlkno := Except.ok.inj (congrArg Prod.fst hhead)
  exact absurd hzero (by decide)

end Nynn
