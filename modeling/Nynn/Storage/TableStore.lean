import Nynn.Storage.ListStore
import Nynn.Storage.ReadMany
import Nynn.Storage.TableRuns

/-!
# A store of lists on the table

A storage with the table of overflow groups holds the lists of a store when the store in which
every block stays mapped holds them, for the same data. What reads the lists may map groups and
unmap others, and changes no list. An update that uses no stale pointer does to the lists what its
name says.

Source: `nynn_mm_subgraph_set.h`, `nynn_mm_subgraph_storage.h`.

## Main definitions

* `Nynn.Storage.HoldsLists`: a storage holds the lists of a store.

## Main results

* `Nynn.Storage.HoldsLists.run_of_rel`: what is read of the lists.
* `Nynn.Storage.HoldsLists.run`: an update.
-/

namespace Nynn

open Program

variable {c : Config}

/-- The loop of `readn` holds no pointer while it gets the next block. -/
theorem readnFrom_rel (n : Int32) (i fuel : ℕ) (b : UInt32) (xblk : List (Block c.blockSz)) :
    Rel (Sim (c := c)) (readnFrom n i fuel b xblk) (readnFrom n i fuel b xblk)
      (fun x y s t => x = y ∧ Sim s t) NotStale := by
  induction fuel generalizing b xblk with
  | zero => exact Rel.pure fun _ _ h => ⟨rfl, h⟩
  | succ fuel ih =>
    have hread := (readBlock_rel (F := fun _ : FlatStorage c => True) b).mono
      (fun _ _ h => ⟨h, trivial⟩) fun _ _ _ _ h => h
    exact Rel.ite (fun _ => Rel.bind_eq hread fun blk => ih _ _)
      fun _ => Rel.pure fun _ _ h => ⟨rfl, h⟩

theorem readn_rel (fuel : ℕ) (v b : UInt32) (n : Int32) :
    Rel (Sim (c := c)) (readn fuel v b n) (readn fuel v b n) (fun x y s t => x = y ∧ Sim s t)
      NotStale :=
  Rel.ite (fun _ => fail_rel (by decide) fun _ _ h => h) fun _ => readnFrom_rel n 0 fuel b []

theorem read_rel (v b : UInt32) :
    Rel (Sim (c := c)) (read v b) (read v b) (fun x y s t => x = y ∧ Sim s t) NotStale :=
  (readBlock_rel (F := fun _ : FlatStorage c => True) b).mono (fun _ _ h => ⟨h, trivial⟩)
    fun _ _ _ _ h => h

/-- A storage holds the lists of the vertices of the interval at `k`. -/
def Storage.HoldsLists (s : Storage c (Overflow c)) (k : UInt32) (L : ListStore c.blockSz) : Prop :=
  ∃ t : FlatStorage c, Sim s t ∧ t.Holds k L

namespace Storage.HoldsLists

variable {s : Storage c (Overflow c)} {k v b : UInt32} {L L' : ListStore c.blockSz}

/-- A formatted subgraph holds empty lists. -/
theorem of_format (halign : c.overflowBlknoMin.toNat % c.groupSize = 0)
    (hformat : format (Overflow.empty c) k = (.ok (), s))
    (hk : k.toNat + c.vertexIntervalWidth < 2 ^ 32)
    (hL : ∀ v, subgraphKey c v = k → L.list v = []) : s.HoldsLists k L := by
  obtain ⟨hnew, hsim⟩ := format_sim halign k
  rw [formatOverflow, hformat] at hnew hsim
  exact ⟨_, hsim, .of_format (Prod.ext hnew.symm rfl) hk hL⟩

theorem congr (h : s.HoldsLists k L) (hlist : ∀ v, subgraphKey c v = k → L'.list v = L.list v)
    (hgiven : ∀ v, subgraphKey c v = k → L'.given v = L.given v) : s.HoldsLists k L' := by
  obtain ⟨t, hsim, hholds⟩ := h
  exact ⟨t, hsim, hholds.congr hlist hgiven⟩

/-! #### Reading -/

theorem reads (h : s.HoldsLists k L) (hv : subgraphKey c v = k) : ReadsList s v (L.list v) := by
  obtain ⟨t, hsim, hholds⟩ := h
  exact hsim.readsList_iff.mpr (hholds.isVertexList hv).reads

/-- `readAllBlknos` returns the list of the store. -/
theorem list_eq (h : s.HoldsLists k L) (hv : subgraphKey c v = k) {l : List UInt32}
    (hl : ReadsList s v l) : l = L.list v := by
  obtain ⟨t, hsim, hholds⟩ := h
  exact (hsim.readsList_iff.mp hl).unique (hholds.isVertexList hv).reads

/-- **What is read of the lists** is read of the store in which every block stays mapped. -/
theorem run_of_rel {α : Type} {p : StorageM c (Overflow c) α} {q : StorageM c AllMapped α}
    {r : Except Fault α} (hrel : Rel Sim p q (fun x y s t => x = y ∧ Sim s t) NotStale)
    (h : s.HoldsLists k L) (hrun : ∀ t : FlatStorage c, t.Holds k L → q.run t = (r, t)) :
    ∃ s', p.run s = (r, s') ∧ s'.HoldsLists k L := by
  obtain ⟨t, hsim, hholds⟩ := h
  have hfst := hrel.run_fst (fun _ _ _ _ h => h.1) hsim
  have hsnd := hrel.run_snd (R := Sim) (fun _ _ _ _ h => h.2) (fun _ _ _ h => h.2) hsim
  rw [hrun t hholds] at hfst hsnd
  exact ⟨_, Prod.ext hfst rfl, t, hsnd, hholds⟩

/-! #### Updates -/

/-- **An update** of a vertex that releases no block through a stale pointer. -/
theorem run (h : s.HoldsLists k L) {op : ListOp c.blockSz} {disk : CreateOutcome}
    (hkey : subgraphKey c op.vtxno = k) (hallowed : op.Allowed (L.list op.vtxno))
    (hpop : op.NotPopLast (L.list op.vtxno)) (hsafe : ∀ b ∈ op.released s, ReleaseSafe s b)
    (hreq : op.newBlk.isSome = true → ∃ b s₁, (require disk).run s = (.ok b, s₁)) :
    ∃ x s', (op.run disk).run s = (.ok (op.newBlk.map fun _ => x), s') ∧
      s'.HoldsLists k (L.update op x) ∧
      (op.newBlk.isSome = true → x ≠ invalidBlkno ∧ ∀ v, subgraphKey c v = k → x ∉ L.list v) := by
  obtain ⟨t, hsim, hholds⟩ := h
  have hrequire : RequireSafe t := by
    obtain ⟨d, hd, -⟩ := hholds.represents
    exact hd.refines.free.requireSafe
  obtain ⟨x, t', hrun, hholds', hfresh⟩ := hholds.run hkey hallowed hpop fun hnew =>
    hsim.require_of_safe hrequire (hreq hnew)
  obtain ⟨s', hrun', hsim'⟩ :=
    (ListOp.run_rel disk op).of_ok_right ⟨hsim, hsim.safe hrequire hsafe⟩ hrun
  exact ⟨x, s', hrun', ⟨t', hsim', hholds'⟩, hfresh⟩

end Storage.HoldsLists

end Nynn
