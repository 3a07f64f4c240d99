import Mathlib.Data.List.MinMax
import Mathlib.Data.List.Sort
import Mathlib.Data.String.Basic
import Mathlib.Logic.Function.Basic

/-!
# The table of subgraphs and hosts

The producer keeps a table with the hosts of every subgraph (the distribution), the host that
agents read a subgraph from (the partition), and two loads: how many subgraphs a host stores and how
many are read from it. The loads are maps from host names to counters of 32 bits, in which a name
that is looked up gets a counter with value zero.

An operation that takes the least element of an empty range, or the front of an empty heap, has no
result. The heap gives the entries in the order of their counters; how it orders entries with equal
counters is left open.

Source: `nynn_mm_graph_table.h`.

## Main definitions

* `Nynn.HostSet`: a set of host names in order.
* `Nynn.Heap`: the order in which a heap gives its entries, with `Nynn.Heap.stable` for one.
* `Nynn.Load`, `Nynn.SGDist`, `Nynn.Partition`: the parts of the table.
* `Nynn.GraphTable`: the table and its operations.

## Main results

* `Nynn.Load.selectHost_spec`, `Nynn.Load.selectReplicHosts_spec`: which hosts are selected.
* `Nynn.Load.selectHost_eq_none_iff`, `Nynn.Load.selectReplicHosts_eq_none_iff`: when there is none.
-/

namespace Nynn

/-! ### Sets of hosts -/

/-- `set<string>`: names in order. -/
structure HostSet where
  hosts : List String
  sorted : hosts.Pairwise (· ≤ ·)
  nodup : hosts.Nodup

namespace HostSet

instance : Membership String HostSet := ⟨fun s host => host ∈ s.hosts⟩

instance (host : String) (s : HostSet) : Decidable (host ∈ s) :=
  inferInstanceAs (Decidable (host ∈ s.hosts))

/-- The set without names. -/
def empty : HostSet := ⟨[], .nil, .nil⟩

/-- `set::insert`. -/
def insert (s : HostSet) (host : String) : HostSet :=
  if h : host ∈ s.hosts then s
  else
    { hosts := s.hosts.orderedInsert (· ≤ ·) host
      sorted := s.sorted.orderedInsert host s.hosts
      nodup := (List.perm_orderedInsert (· ≤ ·) host s.hosts).nodup_iff.mpr
        (List.nodup_cons.mpr ⟨h, s.nodup⟩) }

/-- `set::erase`. -/
def erase (s : HostSet) (host : String) : HostSet where
  hosts := s.hosts.erase host
  sorted := s.sorted.sublist List.erase_sublist
  nodup := s.nodup.sublist List.erase_sublist

@[simp] theorem mem_mk {hosts : List String} {hsorted hnodup} {host : String} :
    host ∈ (⟨hosts, hsorted, hnodup⟩ : HostSet) ↔ host ∈ hosts := Iff.rfl

theorem mem_hosts {s : HostSet} {host : String} : host ∈ s.hosts ↔ host ∈ s := Iff.rfl

@[simp] theorem notMem_empty (host : String) : host ∉ empty := List.not_mem_nil

@[simp] theorem mem_insert {s : HostSet} {host host' : String} :
    host ∈ s.insert host' ↔ host = host' ∨ host ∈ s := by
  rw [insert]
  split_ifs with h
  · exact ⟨Or.inr, fun hor => hor.elim (fun e => e ▸ h) id⟩
  · exact List.mem_orderedInsert _

@[simp] theorem mem_erase {s : HostSet} {host host' : String} :
    host ∈ s.erase host' ↔ host ≠ host' ∧ host ∈ s :=
  s.nodup.mem_erase_iff

theorem hosts_eq_nil_iff {s : HostSet} : s.hosts = [] ↔ ∀ host, host ∉ s :=
  List.eq_nil_iff_forall_not_mem

end HostSet

/-! ### Distributions -/

/-- `SubgraphDistribution`: the hosts of every subgraph. -/
abbrev SGDist := UInt32 → Option HostSet

namespace SGDist

/-- The hosts of a subgraph, none when there is no entry for it. -/
def hosts (d : SGDist) (sgkey : UInt32) : HostSet :=
  (d sgkey).getD .empty

/-- `SubgraphDistribution::insert`. -/
def insert (d : SGDist) (sgkey : UInt32) (host : String) : SGDist :=
  Function.update d sgkey (some ((d.hosts sgkey).insert host))

/-- `SubgraphDistribution::erase` of one host of a subgraph. An entry without hosts goes. -/
def eraseHost (d : SGDist) (sgkey : UInt32) (host : String) : SGDist :=
  let hostSet := (d.hosts sgkey).erase host
  Function.update d sgkey (if hostSet.hosts = [] then none else some hostSet)

/-- `SubgraphDistribution::erase` of a subgraph. -/
def erase (d : SGDist) (sgkey : UInt32) : SGDist :=
  Function.update d sgkey none

/-- `SubgraphDistribution::getHosts`, which makes an entry where there is none. -/
def getHosts (d : SGDist) (sgkey : UInt32) : HostSet × SGDist :=
  (d.hosts sgkey, Function.update d sgkey (some (d.hosts sgkey)))

variable {d : SGDist} {k k' : UInt32} {host host' : String}

private theorem hosts_update (hostSet : Option HostSet) :
    hosts (Function.update d k hostSet) k' =
      if k' = k then hostSet.getD .empty else d.hosts k' := by
  rw [hosts, Function.update_apply]
  split_ifs <;> rfl

@[simp] theorem mem_hosts_insert :
    host' ∈ (d.insert k host).hosts k' ↔ (k' = k ∧ host' = host) ∨ host' ∈ d.hosts k' := by
  rw [insert, hosts_update]
  by_cases hk : k' = k
  · subst hk
    simp
  · simp [hk]

@[simp] theorem mem_hosts_eraseHost :
    host' ∈ (d.eraseHost k host).hosts k' ↔ ¬(k' = k ∧ host' = host) ∧ host' ∈ d.hosts k' := by
  rw [eraseHost, hosts_update]
  by_cases hk : k' = k
  · subst hk
    rw [if_pos rfl]
    split_ifs with hnil
    · have hnot := HostSet.hosts_eq_nil_iff.mp hnil host'
      rw [HostSet.mem_erase] at hnot
      simpa using hnot
    · simp
  · simp [hk]

@[simp] theorem mem_hosts_erase :
    host' ∈ (d.erase k).hosts k' ↔ k' ≠ k ∧ host' ∈ d.hosts k' := by
  rw [erase, hosts_update]
  by_cases hk : k' = k
  · simp [hk]
  · simp [hk]

@[simp] theorem getHosts_fst : (d.getHosts k).1 = d.hosts k := rfl

@[simp] theorem hosts_getHosts_snd : (d.getHosts k).2.hosts k' = d.hosts k' := by
  rw [getHosts, hosts_update]
  split_ifs with hk
  · rw [hk]
    rfl
  · rfl

theorem mem_hosts_foldl_insert (chosen : List String) :
    host' ∈ (chosen.foldl (fun d host => d.insert k host) d).hosts k' ↔
      (k' = k ∧ host' ∈ chosen) ∨ host' ∈ d.hosts k' := by
  induction chosen generalizing d with
  | nil => simp
  | cons host chosen ih =>
    rw [List.foldl_cons, ih, mem_hosts_insert, List.mem_cons]
    tauto

end SGDist

/-! ### Loads -/

/-- An entry of a load, `LoadPair`. -/
abbrev LoadPair := String × UInt32

/-- `make_heap` and `pop_heap` with `LoadMore`: the entries in the order in which the heap gives
them. Nothing is known about the order of entries with equal counters. -/
structure Heap where
  fronts : List LoadPair → List LoadPair
  perm : ∀ v, (fronts v).Perm v
  sorted : ∀ v, (fronts v).Pairwise fun lhs rhs => lhs.2 ≤ rhs.2

/-- A heap that gives entries with equal counters in their order. -/
def Heap.stable : Heap where
  fronts v := v.insertionSort fun lhs rhs => lhs.2.toNat ≤ rhs.2.toNat
  perm v := List.perm_insertionSort _ v
  sorted v := List.pairwise_insertionSort (fun lhs rhs : LoadPair => lhs.2.toNat ≤ rhs.2.toNat) v

/-- `Load`: a counter for every host that has been named. -/
structure Load where
  /-- The names in `m_host2sgnum`. -/
  hosts : HostSet
  /-- The counters in `m_host2sgnum`. -/
  sgnum : String → UInt32
  sgnum_of_notMem : ∀ host, host ∉ hosts → sgnum host = 0

namespace Load

/-- `m_host2sgnum[host]`, which makes a counter where there is none. -/
def touch (l : Load) (host : String) : Load where
  hosts := l.hosts.insert host
  sgnum := l.sgnum
  sgnum_of_notMem host' h := l.sgnum_of_notMem host' fun hmem =>
    h (HostSet.mem_insert.mpr (Or.inr hmem))

/-- An assignment to `m_host2sgnum[host]`. -/
def assign (l : Load) (host : String) (n : UInt32) : Load where
  hosts := l.hosts.insert host
  sgnum := Function.update l.sgnum host n
  sgnum_of_notMem host' h := by
    rw [HostSet.mem_insert, not_or] at h
    rw [Function.update_of_ne h.1]
    exact l.sgnum_of_notMem host' h.2

/-- The load without counters. -/
def empty : Load := ⟨.empty, fun _ => 0, fun _ _ => rfl⟩

/-- The constructor of `Load`. -/
def new (hosts : List String) : Load :=
  hosts.foldl (fun l host => l.assign host 0) .empty

/-- `plus`. -/
def plus (l : Load) (host : String) (n : UInt32) : Load :=
  l.assign host (l.sgnum host + n)

/-- `minus`. -/
def minus (l : Load) (host : String) (n : UInt32) : Load :=
  l.assign host (l.sgnum host - n)

/-- `deselectHost`. -/
def deselectHost (l : Load) (host : String) : Load :=
  l.assign host (l.sgnum host - 1)

/-- `deselectReplicHosts`. -/
def deselectReplicHosts (l : Load) (hosts : List String) : Load :=
  hosts.foldl (fun l host => l.assign host (l.sgnum host - 1)) l

/-- The loop of `selectReplicHosts`, on the entries that the heap still gives. -/
def selectLoop (replica : UInt32) :
    List LoadPair → List String → Load → Option (List String × Load)
  | [], _, _ => none
  | (host, _) :: v, hosts, l =>
    let hosts' := hosts ++ [host]
    let l' := l.assign host (l.sgnum host + 1)
    if hosts'.length < replica.toNat then selectLoop replica v hosts' l' else some (hosts', l')

/-- `selectReplicHosts`. -/
def selectReplicHosts (heap : Heap) (l : Load) (replica : UInt32) :
    Option (List String × Load) :=
  selectLoop replica (heap.fronts (l.hosts.hosts.map fun host => (host, l.sgnum host))) [] l

/-- `selectHost`: `min_element` with `LoadLess` is the first entry with the least counter. -/
def selectHost (l : Load) (hosts : List String) : Option (String × Load) :=
  let l := hosts.foldl touch l
  let v : List LoadPair := hosts.map fun host => (host, l.sgnum host)
  (v.argmin fun loadPair => loadPair.2.toNat).map fun loadPair =>
    (loadPair.1, l.assign loadPair.1 (l.sgnum loadPair.1 + 1))

variable {l l' : Load} {host : String} {hosts : List String}

@[simp] theorem mem_hosts_assign {host' : String} {n : UInt32} :
    host' ∈ (l.assign host n).hosts ↔ host' = host ∨ host' ∈ l.hosts :=
  HostSet.mem_insert

@[simp] theorem sgnum_assign {n : UInt32} :
    (l.assign host n).sgnum = Function.update l.sgnum host n := rfl

@[simp] theorem sgnum_foldl_touch : (hosts.foldl touch l).sgnum = l.sgnum := by
  induction hosts generalizing l with
  | nil => rfl
  | cons host hosts ih => rw [List.foldl_cons, ih, touch]

theorem mem_hosts_foldl_touch {host' : String} :
    host' ∈ (hosts.foldl touch l).hosts ↔ host' ∈ hosts ∨ host' ∈ l.hosts := by
  induction hosts generalizing l with
  | nil => simp
  | cons host hosts ih =>
    rw [List.foldl_cons, ih, touch, HostSet.mem_insert, List.mem_cons]
    tauto

/-- A new load has the given hosts, all with counter zero. -/
theorem new_spec :
    (∀ host, host ∈ (new hosts).hosts ↔ host ∈ hosts) ∧ (new hosts).sgnum = fun _ => 0 := by
  have hfold : ∀ l : Load, l.sgnum = (fun _ => 0) →
      (∀ host, host ∈ (hosts.foldl (fun l host => l.assign host 0) l).hosts ↔
        host ∈ hosts ∨ host ∈ l.hosts) ∧
      (hosts.foldl (fun l host => l.assign host 0) l).sgnum = fun _ => 0 := by
    induction hosts with
    | nil => exact fun l hl => ⟨fun host => by simp, hl⟩
    | cons host hosts ih =>
      intro l hl
      obtain ⟨hmem, hzero⟩ := ih (l.assign host 0) (by
        rw [sgnum_assign, hl]
        exact Function.update_eq_self host fun _ => 0)
      refine ⟨fun host' => ?_, hzero⟩
      rw [List.foldl_cons, hmem, mem_hosts_assign, List.mem_cons]
      tauto
  obtain ⟨hmem, hzero⟩ := hfold .empty rfl
  refine ⟨fun host => (hmem host).trans ?_, hzero⟩
  exact or_iff_left (HostSet.notMem_empty host)

/-- `selectHost` takes one of the hosts and raises its counter. -/
theorem selectHost_spec (h : l.selectHost hosts = some (host, l')) :
    host ∈ hosts ∧ l'.sgnum = Function.update l.sgnum host (l.sgnum host + 1) ∧
      ∀ host', host' ∈ l'.hosts ↔ host' ∈ hosts ∨ host' ∈ l.hosts := by
  obtain ⟨front, hargmin, hfront⟩ := Option.map_eq_some_iff.mp h
  rw [Prod.mk.injEq] at hfront
  obtain ⟨rfl, rfl⟩ := hfront
  obtain ⟨host, hmem, rfl⟩ := List.mem_map.mp (List.argmin_mem hargmin)
  refine ⟨hmem, by rw [sgnum_assign, sgnum_foldl_touch], fun host' => ?_⟩
  rw [mem_hosts_assign, mem_hosts_foldl_touch]
  exact ⟨fun hor => hor.elim (fun e => Or.inl (e ▸ hmem)) id, Or.inr⟩

/-- `selectHost` has a result unless there is no host to select from. -/
theorem selectHost_eq_none_iff : l.selectHost hosts = none ↔ hosts = [] := by
  rw [selectHost, Option.map_eq_none_iff, List.argmin_eq_none, List.map_eq_nil_iff]

/-- A change of the counters of distinct hosts. -/
theorem foldl_assign_spec (f : UInt32 → UInt32) (hnodup : hosts.Nodup) :
    (∀ host, (hosts.foldl (fun l host => l.assign host (f (l.sgnum host))) l).sgnum host =
      if host ∈ hosts then f (l.sgnum host) else l.sgnum host) ∧
    ∀ host, host ∈ (hosts.foldl (fun l host => l.assign host (f (l.sgnum host))) l).hosts ↔
      host ∈ hosts ∨ host ∈ l.hosts := by
  induction hosts generalizing l with
  | nil => simp
  | cons head hosts ih =>
    obtain ⟨hhead, hnodup⟩ := List.nodup_cons.mp hnodup
    obtain ⟨hsgnum, hmem⟩ := ih (l := l.assign head (f (l.sgnum head))) hnodup
    refine ⟨fun host => ?_, fun host => ?_⟩
    · rw [List.foldl_cons, hsgnum, sgnum_assign]
      by_cases hhost : host = head
      · subst hhost
        simp [hhead]
      · simp [hhost]
    · rw [List.foldl_cons, hmem, mem_hosts_assign, List.mem_cons]
      tauto

private theorem selectLoop_eq {replica : UInt32} {v : List LoadPair} {hosts : List String}
    (hlt : hosts.length < replica.toNat) (hv : replica.toNat ≤ hosts.length + v.length) :
    selectLoop replica v hosts l =
      some (hosts ++ (v.map Prod.fst).take (replica.toNat - hosts.length),
        ((v.map Prod.fst).take (replica.toNat - hosts.length)).foldl
          (fun l host => l.assign host (l.sgnum host + 1)) l) := by
  induction v generalizing hosts l with
  | nil =>
    rw [List.length_nil] at hv
    omega
  | cons loadPair v ih =>
    obtain ⟨host, n⟩ := loadPair
    obtain ⟨m, hm⟩ : ∃ m, replica.toNat - hosts.length = m + 1 :=
      Nat.exists_eq_add_one.mpr (by omega)
    rw [selectLoop, hm, List.map_cons, List.take_succ_cons, List.foldl_cons]
    split_ifs with hmore
    · rw [List.length_append, List.length_singleton] at hmore
      have hrest : replica.toNat - (hosts ++ [host]).length = m := by
        rw [List.length_append, List.length_singleton]
        omega
      rw [ih (by simpa using hmore) (by simp at hv ⊢; omega), hrest, List.append_assoc,
        List.singleton_append]
    · rw [List.length_append, List.length_singleton] at hmore
      obtain rfl : m = 0 := by omega
      rw [List.take_zero, List.foldl_nil]

/-- The loop comes to an empty heap when the replicas, or the one that it always takes, are more
than the entries. -/
private theorem selectLoop_eq_none_iff {replica : UInt32} {v : List LoadPair}
    {hosts : List String} :
    selectLoop replica v hosts l = none ↔
      hosts.length + v.length < max (hosts.length + 1) replica.toNat := by
  induction v generalizing hosts l with
  | nil => exact iff_of_true rfl (by simp)
  | cons loadPair v ih =>
    obtain ⟨host, n⟩ := loadPair
    rw [selectLoop, List.length_append, List.length_singleton, List.length_cons]
    split_ifs with hmore
    · rw [ih, List.length_append, List.length_singleton]
      omega
    · exact iff_of_false id (by omega)

/-- The loop takes at least one host. -/
private theorem ne_nil_of_selectLoop {replica : UInt32} {v : List LoadPair}
    {hosts chosen : List String} (h : selectLoop replica v hosts l = some (chosen, l')) :
    chosen ≠ [] := by
  induction v generalizing hosts l with
  | nil => cases h
  | cons loadPair v ih =>
    rw [selectLoop] at h
    split at h
    · exact ih h
    · obtain ⟨rfl, -⟩ := Prod.mk.inj (Option.some.inj h)
      simp

/-- `selectReplicHosts` has a result unless there are fewer hosts than it takes. -/
theorem selectReplicHosts_eq_none_iff (heap : Heap) {replica : UInt32} :
    l.selectReplicHosts heap replica = none ↔ l.hosts.hosts.length < max 1 replica.toNat := by
  rw [selectReplicHosts, selectLoop_eq_none_iff, (heap.perm _).length_eq, List.length_map,
    List.length_nil, Nat.zero_add, Nat.zero_add]

theorem ne_nil_of_selectReplicHosts {heap : Heap} {replica : UInt32} {chosen : List String}
    (h : l.selectReplicHosts heap replica = some (chosen, l')) : chosen ≠ [] :=
  ne_nil_of_selectLoop h

/-- The hosts that `selectReplicHosts` takes, and the load after it. -/
structure Selected (l : Load) (replica : UInt32) (chosen : List String) (l' : Load) : Prop where
  length : chosen.length = replica.toNat
  nodup : chosen.Nodup
  subset : ∀ host ∈ chosen, host ∈ l.hosts
  least : ∀ a ∈ chosen, ∀ b ∈ l.hosts, b ∉ chosen → l.sgnum a ≤ l.sgnum b
  sgnum : ∀ host, l'.sgnum host = if host ∈ chosen then l.sgnum host + 1 else l.sgnum host
  hosts : ∀ host, host ∈ l'.hosts ↔ host ∈ l.hosts

/-- `selectReplicHosts` takes hosts with the least counters, when there are enough hosts. -/
theorem selectReplicHosts_spec (heap : Heap) {replica : UInt32} (hpos : 1 ≤ replica.toNat)
    (hle : replica.toNat ≤ l.hosts.hosts.length) :
    ∃ chosen l', l.selectReplicHosts heap replica = some (chosen, l') ∧
      l.Selected replica chosen l' := by
  let v : List LoadPair := l.hosts.hosts.map fun host => (host, l.sgnum host)
  have hperm : ((heap.fronts v).map Prod.fst).Perm l.hosts.hosts := by
    have hmap : v.map Prod.fst = l.hosts.hosts := by
      rw [List.map_map]
      exact List.map_id _
    exact hmap ▸ (heap.perm v).map Prod.fst
  have hpair : ∀ loadPair ∈ heap.fronts v, loadPair.2 = l.sgnum loadPair.1 := by
    intro loadPair hmem
    obtain ⟨host, -, rfl⟩ := List.mem_map.mp ((heap.perm v).mem_iff.mp hmem)
    rfl
  have hlen : (heap.fronts v).length = l.hosts.hosts.length := by
    rw [← List.length_map (f := Prod.fst), hperm.length_eq]
  have hloop := selectLoop_eq (l := l) (v := heap.fronts v)
    (show ([] : List String).length < replica.toNat from hpos) (by simpa [hlen] using hle)
  have hnodup := (hperm.nodup_iff.mpr l.hosts.nodup).sublist
    (List.take_sublist replica.toNat ((heap.fronts v).map Prod.fst))
  refine ⟨_, _, hloop, ?_⟩
  rw [List.nil_append, List.length_nil, Nat.sub_zero]
  have hsubset : ∀ host ∈ ((heap.fronts v).map Prod.fst).take replica.toNat, host ∈ l.hosts :=
    fun host hmem => hperm.mem_iff.mp (List.mem_of_mem_take hmem)
  obtain ⟨hsgnum, hmem⟩ := foldl_assign_spec (l := l) (· + 1) hnodup
  refine ⟨?_, hnodup, hsubset, ?_, hsgnum, fun host => ?_⟩
  · rw [List.length_take, List.length_map, hlen, Nat.min_eq_left hle]
  · intro a ha b hb hnot
    rw [← List.map_take, List.mem_map] at ha
    obtain ⟨x, hx, rfl⟩ := ha
    have hbv : b ∈ (heap.fronts v).map Prod.fst := hperm.mem_iff.mpr hb
    rw [← List.take_append_drop replica.toNat ((heap.fronts v).map Prod.fst), List.mem_append,
      ← List.map_drop, List.mem_map] at hbv
    obtain ⟨y, hy, rfl⟩ := hbv.resolve_left hnot
    have hsorted := heap.sorted v
    rw [← List.take_append_drop replica.toNat (heap.fronts v), List.pairwise_append] at hsorted
    have hxy := hsorted.2.2 x hx y hy
    rwa [hpair x (List.mem_of_mem_take hx), hpair y (List.mem_of_mem_drop hy)] at hxy
  · rw [hmem]
    exact ⟨fun hor => hor.elim (hsubset host) id, Or.inr⟩

end Load

/-! ### The partition -/

/-- `Partition`: the host from which a subgraph is read. -/
abbrev Partition := UInt32 → Option String

/-- The name that `Partition::get` returns where there is no entry. -/
def unknown : String := "UNKNOWN"

/-- `Partition::get`. -/
def Partition.get (p : Partition) (sgkey : UInt32) : String :=
  (p sgkey).getD unknown

/-! ### The table -/

/-- `GraphTable`. -/
structure GraphTable where
  /-- `m_sgDist`. -/
  sgDist : SGDist
  /-- `m_corruptedSgDist`. -/
  corruptedSgDist : SGDist
  /-- `m_sLoad`, the storage load. -/
  sLoad : Load
  /-- `m_aLoad`, the access load. -/
  aLoad : Load
  /-- `m_partition`. -/
  partition : Partition
  /-- `m_replica`. -/
  replica : UInt32

namespace GraphTable

/-- The constructor of `GraphTable`. -/
def new (hosts : List String) (replica : UInt32) : GraphTable where
  sgDist _ := none
  corruptedSgDist _ := none
  sLoad := .new hosts
  aLoad := .new hosts
  partition _ := none
  replica := replica

/-- `refresh`: take the subgraph from its host and give it to the host with the least load. -/
def refresh (t : GraphTable) (sgkey : UInt32) : Option GraphTable := do
  let oldHost := t.partition.get sgkey
  let aLoad := if oldHost ≠ unknown then t.aLoad.minus oldHost 1 else t.aLoad
  let (hostSet, sgDist) := t.sgDist.getHosts sgkey
  let (host, aLoad) ← aLoad.selectHost hostSet.hosts
  return { t with sgDist, aLoad, partition := Function.update t.partition sgkey (some host) }

/-- `create`. The operations without another result return zero. -/
def create (heap : Heap) (t : GraphTable) (sgkey : UInt32) : Option GraphTable := do
  let (hosts, sLoad) ← t.sLoad.selectReplicHosts heap t.replica
  let sgDist := hosts.foldl (fun d host => d.insert sgkey host) t.sgDist
  { t with sgDist, sLoad }.refresh sgkey

/-- `destroy`. -/
def destroy (t : GraphTable) (sgkey : UInt32) : GraphTable :=
  let (hostSet, sgDist) := t.sgDist.getHosts sgkey
  { t with
    sLoad := t.sLoad.deselectReplicHosts hostSet.hosts
    aLoad := t.aLoad.deselectHost (t.partition.get sgkey)
    sgDist := sgDist.erase sgkey
    partition := Function.update t.partition sgkey none }

/-- `getHosts`. -/
def getHosts (t : GraphTable) (sgkey : UInt32) : List String × GraphTable :=
  let (hostSet, sgDist) := t.sgDist.getHosts sgkey
  (hostSet.hosts, { t with sgDist })

/-- `recycle`. -/
def recycle (t : GraphTable) (sgkey : UInt32) (host : String) : Option GraphTable :=
  let t' := { t with
    sgDist := t.sgDist.eraseHost sgkey host
    corruptedSgDist := t.corruptedSgDist.insert sgkey host
    sLoad := t.sLoad.deselectHost host }
  if host = t'.partition.get sgkey then
    { t' with aLoad := t'.aLoad.deselectHost host }.refresh sgkey
  else some t'

/-- `restore` of a subgraph on a host. -/
def restore (t : GraphTable) (sgkey : UInt32) (host : String) : Option GraphTable := do
  let corruptedSgDist := t.corruptedSgDist.eraseHost sgkey host
  let sgDist := t.sgDist.insert sgkey host
  let (_, sLoad) ← t.sLoad.selectHost [host]
  { t with corruptedSgDist, sgDist, sLoad }.refresh sgkey

/-- `setAllSgkeys`: an agent reports the subgraphs of its host. -/
def setAllSgkeys (t : GraphTable) (host : String) (sgkeys : List UInt32) : Option GraphTable :=
  sgkeys.foldlM (fun t sgkey => { t with sgDist := t.sgDist.insert sgkey host }.refresh sgkey)
    { t with sLoad := t.sLoad.plus host (.ofNat sgkeys.length) }

/-- `getHost`. -/
def getHost (t : GraphTable) (sgkey : UInt32) : String :=
  t.partition.get sgkey

end GraphTable

end Nynn
