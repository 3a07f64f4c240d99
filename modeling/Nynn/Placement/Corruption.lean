import Nynn.Placement.StorageLoad

/-!
# Corrupted replicas

A recycle moves a host of a subgraph from the distribution to the corrupted distribution, and a
restore moves it back. A create and a report of an agent put hosts into the distribution and do not
look at the corrupted one: a host whose copy is corrupted becomes live again, and stays corrupted.

Source: `nynn_mm_graph_table.h`.

## Main definitions

* `Nynn.Load.leastLoaded`: the hosts that the heap gives first.
* `Nynn.GraphTable.CorruptionSafe`: the calls that make no corrupted host live.

## Main results

* `Nynn.GraphTable.call_dist`: what a call does to the two distributions.
* `Nynn.corruption_disjoint_iff`: when no replica is live and corrupted at once.
-/

namespace Nynn

open Transition

/-! ### The hosts that a create takes -/

namespace Load

variable {l l' : Load} {replica : UInt32} {chosen : List String}

/-- The first `n` hosts that the heap gives, those with the least counters. -/
def leastLoaded (heap : Heap) (l : Load) (n : ℕ) : List String :=
  ((heap.fronts (l.hosts.hosts.map fun host => (host, l.sgnum host))).map Prod.fst).take n

private theorem of_selectLoop {v : List LoadPair} {hosts : List String}
    (h : selectLoop replica v hosts l = some (chosen, l')) :
    chosen = hosts ++ (v.map Prod.fst).take (max 1 (replica.toNat - hosts.length)) := by
  induction v generalizing hosts l with
  | nil => cases h
  | cons loadPair v ih =>
    obtain ⟨host, n⟩ := loadPair
    rw [selectLoop] at h
    have hlen : (hosts ++ [host]).length = hosts.length + 1 := by simp
    split_ifs at h with hmore
    · obtain ⟨m, hm⟩ : ∃ m, max 1 (replica.toNat - hosts.length) = m + 1 ∧
          max 1 (replica.toNat - (hosts ++ [host]).length) = m :=
        ⟨_, by omega, rfl⟩
      rw [ih h, hm.1, hm.2, List.map_cons, List.take_succ_cons, List.append_assoc,
        List.singleton_append]
    · obtain ⟨rfl, -⟩ := Prod.mk.inj (Option.some.inj h)
      have hone : max 1 (replica.toNat - hosts.length) = 1 := by omega
      rw [hone, List.map_cons, List.take_succ_cons, List.take_zero]

/-- A selection takes at least one host. -/
theorem of_selectReplicHosts {heap : Heap}
    (h : l.selectReplicHosts heap replica = some (chosen, l')) :
    chosen = l.leastLoaded heap (max 1 replica.toNat) :=
  of_selectLoop h

end Load

/-! ### What the calls do to the two distributions -/

namespace GraphTable

variable {heap : Heap} {t t' : GraphTable} {k : UInt32} {host : String} {a : TableCall}

/-- The hosts of a subgraph after a call: those that the call puts there, and those from before that
it does not take away. -/
def liveAfter (heap : Heap) (t : GraphTable) (k : UInt32) (host : String) : TableCall → Prop
  | .create sgkey =>
    (k = sgkey ∧ host ∈ t.sLoad.leastLoaded heap (max 1 t.replica.toNat)) ∨
      host ∈ t.sgDist.hosts k
  | .destroy sgkey => k ≠ sgkey ∧ host ∈ t.sgDist.hosts k
  | .recycle sgkey host' => ¬(k = sgkey ∧ host = host') ∧ host ∈ t.sgDist.hosts k
  | .restore sgkey host' => (k = sgkey ∧ host = host') ∨ host ∈ t.sgDist.hosts k
  | .setAllSgkeys host' sgkeys => (k ∈ sgkeys ∧ host = host') ∨ host ∈ t.sgDist.hosts k
  | _ => host ∈ t.sgDist.hosts k

/-- The corrupted hosts of a subgraph after a call. -/
def corruptedAfter (t : GraphTable) (k : UInt32) (host : String) : TableCall → Prop
  | .recycle sgkey host' => (k = sgkey ∧ host = host') ∨ host ∈ t.corruptedSgDist.hosts k
  | .restore sgkey host' => ¬(k = sgkey ∧ host = host') ∧ host ∈ t.corruptedSgDist.hosts k
  | _ => host ∈ t.corruptedSgDist.hosts k

theorem create_call_dist (h : t.create heap k = some t') :
    t'.sgDist.hosts = ((t.sLoad.leastLoaded heap (max 1 t.replica.toNat)).foldl
        (fun d host => d.insert k host) t.sgDist).hosts ∧
      t'.corruptedSgDist = t.corruptedSgDist := by
  obtain ⟨⟨chosen, l⟩, hselect, hrefresh⟩ := Option.bind_eq_some_iff.mp h
  obtain ⟨host, hr⟩ := refresh_spec hrefresh
  rw [← Load.of_selectReplicHosts hselect]
  exact ⟨hr.dist, hr.corrupted⟩

theorem setAllSgkeys_corrupted {sgkeys : List UInt32} (h : t.setAllSgkeys host sgkeys = some t') :
    t'.corruptedSgDist = t.corruptedSgDist := by
  obtain ⟨t'', hfold, ht''⟩ := foldlM_report (I := fun s => s.corruptedSgDist = t.corruptedSgDist)
    host sgkeys (t := { t with sLoad := t.sLoad.plus host (.ofNat sgkeys.length) }) rfl
    fun s sgkey _ s' hs hreport => by
      rw [report] at hreport
      obtain ⟨host', hr⟩ := refresh_spec hreport
      exact hr.corrupted.trans hs
  rw [setAllSgkeys_eq, hfold] at h
  exact Option.some.inj h ▸ ht''

/-- **A call** puts hosts into the distributions and takes hosts away. -/
theorem call_dist (h : t.call heap a = some t') (k : UInt32) (host : String) :
    (host ∈ t'.sgDist.hosts k ↔ t.liveAfter heap k host a) ∧
      (host ∈ t'.corruptedSgDist.hosts k ↔ t.corruptedAfter k host a) := by
  cases a with
  | create sgkey =>
    obtain ⟨hlive, hcorrupted⟩ := create_call_dist h
    rw [hlive, hcorrupted]
    exact ⟨SGDist.mem_hosts_foldl_insert _, Iff.rfl⟩
  | destroy sgkey =>
    obtain rfl := Option.some.inj h
    exact ⟨mem_dist_destroy, Iff.rfl⟩
  | getHosts sgkey =>
    obtain rfl := Option.some.inj h
    exact ⟨by rw [getHosts, SGDist.hosts_getHosts_snd]; exact Iff.rfl, Iff.rfl⟩
  | getHost sgkey =>
    obtain rfl := Option.some.inj h
    exact ⟨Iff.rfl, Iff.rfl⟩
  | recycle sgkey host' =>
    obtain ⟨hlive, hcorrupted, -⟩ := recycle_spec h
    rw [hlive, hcorrupted]
    exact ⟨SGDist.mem_hosts_eraseHost, SGDist.mem_hosts_insert⟩
  | restore sgkey host' =>
    obtain ⟨l, -, -, hrestore⟩ := restore_eq t sgkey host'
    obtain ⟨host'', hr⟩ := refresh_spec (hrestore.symm.trans h)
    rw [hr.dist, hr.corrupted]
    exact ⟨SGDist.mem_hosts_insert, SGDist.mem_hosts_eraseHost⟩
  | setAllSgkeys host' sgkeys =>
    obtain ⟨-, hlive⟩ := setAllSgkeys_dist h
    rw [hlive, setAllSgkeys_corrupted h]
    exact ⟨Iff.rfl, Iff.rfl⟩

/-! ### Live and corrupted -/

/-- No host of a subgraph is live and corrupted at once. -/
def Disjoint (t : GraphTable) : Prop :=
  ∀ k host, host ∈ t.sgDist.hosts k → host ∉ t.corruptedSgDist.hosts k

/-- What a call is made on: a create is for a subgraph without hosts, a recycle names a host of the
subgraph, and a restore a corrupted one. -/
def MadeOn (t : GraphTable) : TableCall → Prop
  | .create sgkey => ∀ host, host ∉ t.sgDist.hosts sgkey
  | .recycle sgkey host => host ∈ t.sgDist.hosts sgkey
  | .restore sgkey host => host ∈ t.corruptedSgDist.hosts sgkey
  | _ => True

/-- The call makes no corrupted host live: the hosts with the least counters, which a create takes,
have no corrupted copy of the subgraph, and the host of a report has none of its subgraphs. -/
def CorruptionSafe (heap : Heap) (t : GraphTable) : TableCall → Prop
  | .create sgkey => ∀ host ∈ t.sLoad.leastLoaded heap (max 1 t.replica.toNat),
    host ∉ t.corruptedSgDist.hosts sgkey
  | .setAllSgkeys host sgkeys => ∀ sgkey ∈ sgkeys, host ∉ t.corruptedSgDist.hosts sgkey
  | _ => True

/-- A call keeps the distributions disjoint just when it makes no corrupted host live. -/
theorem Disjoint.call_iff (ht : t.Disjoint) (h : t.call heap a = some t') :
    t'.Disjoint ↔ t.CorruptionSafe heap a := by
  have hiff : t'.Disjoint ↔ ∀ k host, t.liveAfter heap k host a → ¬t.corruptedAfter k host a :=
    forall₂_congr fun k host =>
      imp_congr (call_dist h k host).1 (not_congr (call_dist h k host).2)
  rw [hiff]
  cases a with
  | create sgkey =>
    refine ⟨fun hall host hmem => hall sgkey host (Or.inl ⟨rfl, hmem⟩), fun hsafe k host hlive => ?_⟩
    rcases hlive with ⟨rfl, hmem⟩ | hlive
    · exact hsafe host hmem
    · exact ht k host hlive
  | destroy sgkey => exact iff_of_true (fun k host hlive => ht k host hlive.2) trivial
  | getHosts sgkey => exact iff_of_true ht trivial
  | getHost sgkey => exact iff_of_true ht trivial
  | recycle sgkey host' =>
    refine iff_of_true (fun k host hlive hcorrupted => ?_) trivial
    rcases hcorrupted with hsame | hcorrupted
    · exact hlive.1 hsame
    · exact ht k host hlive.2 hcorrupted
  | restore sgkey host' =>
    refine iff_of_true (fun k host hlive hcorrupted => ?_) trivial
    rcases hlive with hsame | hlive
    · exact hcorrupted.1 hsame
    · exact ht k host hlive hcorrupted.2
  | setAllSgkeys host' sgkeys =>
    refine ⟨fun hall k hk => hall k host' (Or.inl ⟨hk, rfl⟩), fun hsafe k host hlive => ?_⟩
    rcases hlive with ⟨hk, rfl⟩ | hlive
    · exact hsafe k hk
    · exact ht k host hlive

end GraphTable

/-- A call that has a result. -/
def MadeStep (heap : Heap) (t : GraphTable) (a : TableCall) (t' : GraphTable) : Prop :=
  t.MadeOn a ∧ t.call heap a = some t'

/-- A call that makes no corrupted host live. -/
def CorruptionStep (heap : Heap) (t : GraphTable) (a : TableCall) (t' : GraphTable) : Prop :=
  MadeStep heap t a t' ∧ t.CorruptionSafe heap a

/-- **A replica is not live and corrupted at once** in any run of calls that make no corrupted host
live; and a further call keeps it so if and only if it makes no corrupted host live. -/
theorem corruption_disjoint_iff {heap : Heap} {hosts : List String} {replica : UInt32}
    {as : List TableCall} {t : GraphTable}
    (h : Steps (CorruptionStep heap) (.new hosts replica) as t) :
    t.Disjoint ∧ ∀ a t', MadeStep heap t a t' → (t'.Disjoint ↔ t.CorruptionSafe heap a) := by
  have ht : t.Disjoint := h.invariant (fun _ _ _ ht hstep => (ht.call_iff hstep.1.2).mpr hstep.2)
    fun _ _ hmem => absurd hmem List.not_mem_nil
  exact ⟨ht, fun a t' hstep => ht.call_iff hstep.2⟩

theorem MadeStep.of_isSome {heap : Heap} {t : GraphTable} {a : TableCall} (ha : t.MadeOn a)
    (hsome : (t.call heap a).isSome = true) :
    MadeStep heap t a ((t.call heap a).getD t) := by
  obtain ⟨t', ht'⟩ := Option.isSome_iff_exists.mp hsome
  refine ⟨ha, ?_⟩
  rw [ht', Option.getD_some]

/-- A host that is recycled and restored. -/
theorem corruption_disjoint_small : ∃ t,
    Steps (MadeStep .stable) (.new ["a", "b"] 2) [.create 0, .recycle 0 "b", .restore 0 "b"] t ∧
      t.Disjoint := by
  have h₁ : CorruptionStep .stable (.new ["a", "b"] 2) (.create 0) _ :=
    ⟨.of_isSome (fun host => List.not_mem_nil) (by decide +kernel), fun _ _ => List.not_mem_nil⟩
  have h₂ := (Steps.single h₁).snoc (show CorruptionStep .stable _ (.recycle 0 "b") _ from
    ⟨.of_isSome (show _ ∈ _ by decide +kernel) (by decide +kernel), trivial⟩)
  have h₃ := h₂.snoc (show CorruptionStep .stable _ (.restore 0 "b") _ from
    ⟨.of_isSome (show _ ∈ _ by decide +kernel) (by decide +kernel), trivial⟩)
  exact ⟨_, h₃.mono fun _ _ _ h => h.1, (corruption_disjoint_iff h₃).1⟩

/-- A host that is recycled and then reports its corrupted copy. -/
theorem corruption_disjoint_false_of_report : ∃ t,
    Steps (MadeStep .stable) (.new ["a", "b"] 2)
      [.create 0, .recycle 0 "b", .setAllSgkeys "b" [0]] t ∧ ¬t.Disjoint := by
  have h₁ : MadeStep .stable (.new ["a", "b"] 2) (.create 0) _ :=
    .of_isSome (fun host => List.not_mem_nil) (by decide +kernel)
  have h₂ := (Steps.single h₁).snoc (show MadeStep .stable _ (.recycle 0 "b") _ from
    .of_isSome (show _ ∈ _ by decide +kernel) (by decide +kernel))
  have h₃ := h₂.snoc (show MadeStep .stable _ (.setAllSgkeys "b" [0]) _ from
    .of_isSome trivial (by decide +kernel))
  exact ⟨_, h₃, fun h => h 0 "b" (by decide +kernel) (by decide +kernel)⟩

end Nynn
