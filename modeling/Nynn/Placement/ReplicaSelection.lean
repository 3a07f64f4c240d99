import Nynn.Library.BinaryHeap
import Nynn.Placement.GraphTable

/-!
# Selecting the hosts of the replicas

`selectReplicHosts` makes a heap of the entries of a load, with the smallest counter in front, and
pops hosts until it has enough. It raises the counters in the load, not those in the heap. What the
standard of C++ says about `make_heap` and `pop_heap` is all that is used of them: any such functions
give the entries in the order of their counters, as `Nynn.Heap` does.

Source: `Load::selectReplicHosts` and `Load::LoadMore` in `nynn_mm_graph_table.h`.

## Main definitions

* `Nynn.loadMore`: the comparison of the heap.
* `Nynn.Load.selectReplicHostsFrom`: the selection with the given heap functions.

## Main results

* `Nynn.Load.selectReplicHostsFrom_eq`: the selection takes the hosts in the order of a
  `Nynn.Heap`.
* `Nynn.selectReplicHosts_least`: which hosts are selected, and what their counters are.
-/

namespace Nynn

open BinaryHeap

/-- `LoadMore`. -/
def loadMore (lhs rhs : LoadPair) : Bool := lhs.2 > rhs.2

theorem loadMore_eq_false_iff {lhs rhs : LoadPair} : loadMore lhs rhs = false ↔ lhs.2 ≤ rhs.2 := by
  rw [loadMore, decide_eq_false_iff_not, gt_iff_lt, UInt32.not_lt]

theorem weakOrder_loadMore : WeakOrder loadMore where
  trans a b c := by
    rw [loadMore_eq_false_iff, loadMore_eq_false_iff, loadMore_eq_false_iff]
    exact UInt32.le_trans
  total a b := by
    rw [loadMore_eq_false_iff, loadMore_eq_false_iff]
    exact UInt32.le_total _ _

/-- The order in which `make_heap` and `pop_heap` give the entries. -/
def heapOf (f : HeapFunctions loadMore) : Heap where
  fronts v := f.fronts (f.makeHeap v).length (f.makeHeap v)
  perm v := (f.fronts_spec weakOrder_loadMore (f.isHeap_makeHeap v)).1.trans (f.makeHeap_perm v)
  sorted v := (f.fronts_spec weakOrder_loadMore (f.isHeap_makeHeap v)).2.imp
    fun h => loadMore_eq_false_iff.mp h

namespace Load

variable (f : HeapFunctions loadMore) {l : Load} {replica : UInt32}

/-- The loop of `selectReplicHosts` on the heap `v`, in at most `fuel` rounds. An empty vector has
no front. -/
def heapLoop (replica : UInt32) :
    ℕ → List LoadPair → List String → Load → Option (List String × Load)
  | 0, _, _, _ => none
  | _ + 1, [], _, _ => none
  | fuel + 1, loadPair :: v, hosts, l =>
    let host := loadPair.1
    let hosts := hosts ++ [host]
    let l := l.assign host (l.sgnum host + 1)
    let v := (f.popHeap (loadPair :: v)).dropLast
    if hosts.length < replica.toNat then heapLoop replica fuel v hosts l else some (hosts, l)

/-- `selectReplicHosts` with these heap functions. -/
def selectReplicHostsFrom (fuel : ℕ) (l : Load) (replica : UInt32) :
    Option (List String × Load) :=
  heapLoop f replica fuel (f.makeHeap (l.hosts.hosts.map fun host => (host, l.sgnum host))) [] l

/-- The loop takes the fronts of the heap. -/
private theorem heapLoop_eq {v : List LoadPair} {hosts : List String} {fuel : ℕ}
    (hv : IsHeap loadMore v) (hfuel : v.length ≤ fuel) :
    heapLoop f replica fuel v hosts l = selectLoop replica (f.fronts v.length v) hosts l := by
  induction fuel generalizing v hosts l with
  | zero =>
    rw [List.eq_nil_of_length_eq_zero (Nat.le_zero.mp hfuel)]
    rfl
  | succ fuel ih =>
    cases v with
    | nil => rfl
    | cons loadPair v =>
      obtain ⟨w, hpop, hperm, hw⟩ := f.popHeap_eq loadPair v hv
      have hlen : w.length ≤ fuel := by
        rw [hperm.length_eq]
        exact Nat.le_of_succ_le_succ hfuel
      rw [heapLoop, List.length_cons, HeapFunctions.fronts, hpop, List.dropLast_concat,
        ← hperm.length_eq, ih hw hlen]
      rfl

/-- **The selection** takes the hosts in the order in which the heap gives them. -/
theorem selectReplicHostsFrom_eq {fuel : ℕ} (hfuel : l.hosts.hosts.length ≤ fuel) :
    l.selectReplicHostsFrom f fuel replica = l.selectReplicHosts (heapOf f) replica := by
  rw [selectReplicHostsFrom, heapLoop_eq f (f.isHeap_makeHeap _)]
  · rfl
  · rwa [(f.makeHeap_perm _).length_eq, List.length_map]

end Load

/-- **The hosts of the replicas.** From at least `replica` hosts the selection takes exactly
`replica` distinct ones, and no host that it leaves out has a smaller counter. The counters of 32
bits of the hosts that it takes go up by one, and no others change. -/
theorem selectReplicHosts_least {f : HeapFunctions loadMore} {l : Load} {replica : UInt32}
    {fuel : ℕ} (hpos : 1 ≤ replica.toNat) (hle : replica.toNat ≤ l.hosts.hosts.length)
    (hfuel : l.hosts.hosts.length ≤ fuel) :
    ∃ chosen l', l.selectReplicHostsFrom f fuel replica = some (chosen, l') ∧
      l.Selected replica chosen l' ∧
      ∀ host ∈ chosen, (l'.sgnum host).toNat = ((l.sgnum host).toNat + 1) % 2 ^ 32 := by
  obtain ⟨chosen, l', hselect, hchosen⟩ := l.selectReplicHosts_spec (heapOf f) hpos hle
  refine ⟨chosen, l', (Load.selectReplicHostsFrom_eq f hfuel).trans hselect, hchosen,
    fun host hmem => ?_⟩
  rw [hchosen.sgnum, if_pos hmem, UInt32.toNat_add]
  rfl

/-- Two of three hosts, two of which have equal counters. -/
theorem selectReplicHosts_least_small :
    ∃ chosen l', ((Load.new ["a", "b", "c"]).plus "b" 1).selectReplicHostsFrom
        (HeapFunctions.sorting weakOrder_loadMore) 3 2 = some (chosen, l') ∧
      ((Load.new ["a", "b", "c"]).plus "b" 1).Selected 2 chosen l' := by
  obtain ⟨chosen, l', hselect, hchosen, -⟩ := @selectReplicHosts_least
    (HeapFunctions.sorting weakOrder_loadMore) ((Load.new ["a", "b", "c"]).plus "b" 1) 2 3
    (by decide) (by decide +kernel) (by decide +kernel)
  exact ⟨chosen, l', hselect, hchosen⟩

/-- A counter of 32 bits that has its greatest value does not go up. -/
theorem selectReplicHosts_false_of_overflow :
    ∃ chosen l', ((Load.new ["a"]).plus "a" 4294967295).selectReplicHostsFrom
        (HeapFunctions.sorting weakOrder_loadMore) 1 1 = some (chosen, l') ∧ "a" ∈ chosen ∧
      (((Load.new ["a"]).plus "a" 4294967295).sgnum "a").toNat = 4294967295 ∧
      (l'.sgnum "a").toNat = 0 :=
  ⟨["a"], ((Load.new ["a"]).plus "a" 4294967295).plus "a" 1, by rfl, by decide, by rfl, by rfl⟩

end Nynn
