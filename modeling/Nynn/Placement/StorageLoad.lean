import Nynn.Library.Loads
import Nynn.Placement.TableCalls

/-!
# The storage load

The counter of a host in the storage load follows the number of subgraphs that the distribution puts
on the host. A set of hosts takes a host once, but the counter goes up with every subgraph of a
report and with every restore, whether the host was in the set before or not.

Source: `nynn_mm_graph_table.h`.

## Main definitions

* `Nynn.GraphTable.StorageSafe`: the calls that put a host only in sets in which it is not.
* `Nynn.GraphTable.StorageCounts`: the counters show the numbers of subgraphs.

## Main results

* `Nynn.GraphTable.StorageCounts.create`: a create keeps the counters.
* `Nynn.storageLoad_counts`: in every run of safe calls the counters are right.
-/

namespace Nynn

open Transition Loads

namespace GraphTable

variable {heap : Heap} {hosts : List String} {t t' : GraphTable} {k : UInt32} {host : String}

/-- The call keeps the storage load right: a report names every subgraph once and only subgraphs
that the host does not have, a restore is for a host that the subgraph does not have, and some
subgraph, besides the ones of the call, is not on the host that gets them. -/
def StorageSafe (t : GraphTable) : TableCall → Prop
  | .create sgkey => ∀ host, ∃ k, k ≠ sgkey ∧ host ∉ t.sgDist.hosts k
  | .restore sgkey host =>
    host ∉ t.sgDist.hosts sgkey ∧ ∃ k, k ≠ sgkey ∧ host ∉ t.sgDist.hosts k
  | .setAllSgkeys host sgkeys =>
    sgkeys.Nodup ∧ (∀ sgkey ∈ sgkeys, host ∉ t.sgDist.hosts sgkey) ∧
      ∃ k, k ∉ sgkeys ∧ host ∉ t.sgDist.hosts k
  | _ => True

/-- The counter of every host shows how many subgraphs are on it. -/
def StorageCounts (t : GraphTable) : Prop :=
  ∀ host, Counts (t.sLoad.sgnum host) fun k => host ∈ t.sgDist.hosts k

/-! ### What the calls do to the distribution -/

/-- A create puts the subgraph on the selected hosts. -/
theorem create_dist (hconf : ∀ host ∈ hosts, host ∈ t.sLoad.hosts)
    (h : TableStep heap hosts t (.create k) t') :
    ∃ chosen, t.sLoad.Selected t.replica chosen t'.sLoad ∧ t'.replica = t.replica ∧
      ∀ k' name, name ∈ t'.sgDist.hosts k' ↔
        (k' = k ∧ name ∈ chosen) ∨ name ∈ t.sgDist.hosts k' := by
  obtain ⟨chosen, l, hl, hcreate⟩ := create_eq heap hconf h.1
  obtain ⟨host, hr⟩ := refresh_spec (hcreate.symm.trans h.2)
  refine ⟨chosen, hr.sLoad ▸ hl, hr.replica, fun k' name => ?_⟩
  rw [hr.dist]
  exact SGDist.mem_hosts_foldl_insert chosen

/-- A report puts every subgraph on the host. -/
theorem setAllSgkeys_dist {sgkeys : List UInt32}
    (h : t.setAllSgkeys host sgkeys = some t') :
    t'.sLoad = t.sLoad.plus host (.ofNat sgkeys.length) ∧
      ∀ k name, name ∈ t'.sgDist.hosts k ↔
        (k ∈ sgkeys ∧ name = host) ∨ name ∈ t.sgDist.hosts k := by
  have hfold : ∀ (ks : List UInt32) (t : GraphTable),
      ks.foldlM (fun t sgkey => t.report host sgkey) t = some t' → t'.sLoad = t.sLoad ∧
        ∀ k name, name ∈ t'.sgDist.hosts k ↔
          (k ∈ ks ∧ name = host) ∨ name ∈ t.sgDist.hosts k := by
    intro ks
    induction ks with
    | nil =>
      intro t h
      obtain rfl := Option.some.inj h
      simp
    | cons sgkey ks ih =>
      intro t h
      rw [List.foldlM_cons] at h
      obtain ⟨t₁, hreport, hrest⟩ := Option.bind_eq_some_iff.mp h
      obtain ⟨hload, hdist⟩ := ih t₁ hrest
      refine ⟨hload.trans (sLoad_report hreport), fun k name => ?_⟩
      rw [report] at hreport
      obtain ⟨host', hr⟩ := refresh_spec hreport
      rw [hdist, hr.dist, SGDist.mem_hosts_insert, List.mem_cons]
      tauto
  exact hfold sgkeys _ h

/-! ### Counters -/

/-- A create keeps the counters. -/
theorem StorageCounts.create (ht : t.StorageCounts) (hconf : ∀ host ∈ hosts, host ∈ t.sLoad.hosts)
    (h : TableStep heap hosts t (.create k) t') : t'.StorageCounts := by
  obtain ⟨chosen, hl, -, hdist⟩ := create_dist hconf h
  intro host
  rw [hl.sgnum]
  split_ifs with hmem
  · refine (ht host).insert (h.1.1 host) fun k' => ?_
    rw [hdist, and_iff_left hmem]
  · refine (ht host).congr fun k' => ?_
    rw [hdist]
    exact or_iff_right fun hand => hmem hand.2

theorem StorageCounts.destroy (ht : t.StorageCounts) : (t.destroy k).StorageCounts := by
  intro host
  have hsgnum := (Load.foldl_assign_spec (l := t.sLoad) (· - 1) (t.sgDist.hosts k).nodup).1 host
  have hload : (t.destroy k).sLoad.sgnum host =
      if host ∈ (t.sgDist.hosts k).hosts then t.sLoad.sgnum host - 1 else t.sLoad.sgnum host :=
    hsgnum
  rw [hload]
  split_ifs with hmem
  · exact (ht host).erase (k := k) hmem fun k' => mem_dist_destroy
  · refine (ht host).congr fun k' => mem_dist_destroy.trans (and_iff_right_of_imp ?_)
    rintro hk' rfl
    exact hmem hk'

/-- One subgraph less on the host. -/
private theorem StorageCounts.deselect {d : SGDist} (ht : t.StorageCounts)
    (hmem : host ∈ t.sgDist.hosts k)
    (hd : ∀ k' name, name ∈ d.hosts k' ↔ ¬(k' = k ∧ name = host) ∧ name ∈ t.sgDist.hosts k')
    (name : String) :
    Counts ((t.sLoad.deselectHost host).sgnum name) fun k' => name ∈ d.hosts k' := by
  rw [Load.deselectHost, Load.sgnum_assign]
  by_cases hname : name = host
  · subst hname
    rw [Function.update_self]
    exact (ht name).erase hmem fun k' => by rw [hd]; tauto
  · rw [Function.update_of_ne hname]
    exact (ht name).congr fun k' => by rw [hd]; tauto

/-- One subgraph more on the host. -/
private theorem StorageCounts.select {d : SGDist} {l : Load} (ht : t.StorageCounts)
    (hnot : host ∉ t.sgDist.hosts k)
    (hl : l.sgnum = Function.update t.sLoad.sgnum host (t.sLoad.sgnum host + 1))
    (hd : ∀ k' name, name ∈ d.hosts k' ↔ (k' = k ∧ name = host) ∨ name ∈ t.sgDist.hosts k')
    (name : String) : Counts (l.sgnum name) fun k' => name ∈ d.hosts k' := by
  rw [hl]
  by_cases hname : name = host
  · subst hname
    rw [Function.update_self]
    exact (ht name).insert hnot fun k' => by rw [hd]; tauto
  · rw [Function.update_of_ne hname]
    exact (ht name).congr fun k' => by rw [hd]; tauto

theorem StorageCounts.setAllSgkeys {sgkeys : List UInt32} (ht : t.StorageCounts)
    (hnodup : sgkeys.Nodup) (hnot : ∀ sgkey ∈ sgkeys, host ∉ t.sgDist.hosts sgkey)
    (h : t.setAllSgkeys host sgkeys = some t') : t'.StorageCounts := by
  obtain ⟨hload, hdist⟩ := setAllSgkeys_dist h
  intro name
  rw [hload, Load.plus, Load.sgnum_assign]
  by_cases hname : name = host
  · subst hname
    rw [Function.update_self]
    exact (ht name).insert_list hnodup hnot fun k => by rw [hdist]; tauto
  · rw [Function.update_of_ne hname]
    exact (ht name).congr fun k => by rw [hdist]; tauto

/-! ### Runs -/

/-- The counters are right, and no host has every subgraph. -/
structure StorageInvariant (t : GraphTable) : Prop where
  counts : t.StorageCounts
  room : ∀ host, ∃ k, host ∉ t.sgDist.hosts k

/-- Every safe call keeps the counters right. -/
theorem StorageInvariant.step {a : TableCall} (ht : t.StorageInvariant)
    (hcons : t.Consistent hosts) (hstep : TableStep heap hosts t a t') (hsafe : t.StorageSafe a) :
    t'.StorageInvariant := by
  obtain ⟨ha, h⟩ := hstep
  cases a with
  | create k =>
    obtain ⟨chosen, hl, -, hdist⟩ := create_dist hcons.conf ⟨ha, h⟩
    refine ⟨ht.counts.create hcons.conf ⟨ha, h⟩, fun host => ?_⟩
    obtain ⟨k', hne, hk'⟩ := hsafe host
    refine ⟨k', ?_⟩
    rw [hdist]
    tauto
  | destroy k =>
    obtain rfl := Option.some.inj h
    refine ⟨ht.counts.destroy, fun host => ?_⟩
    obtain ⟨k', hk'⟩ := ht.room host
    exact ⟨k', mt (fun hmem => (mem_dist_destroy.mp hmem).2) hk'⟩
  | getHosts k =>
    obtain rfl := Option.some.inj h
    have hdist : (t.getHosts k).2.sgDist.hosts = t.sgDist.hosts :=
      funext fun _ => SGDist.hosts_getHosts_snd
    refine ⟨fun host => ?_, fun host => ?_⟩
    · rw [hdist]
      exact ht.counts host
    · rw [hdist]
      exact ht.room host
  | getHost k => exact Option.some.inj h ▸ ht
  | recycle k host =>
    have hmem : host ∈ t.sgDist.hosts k := ha
    obtain ⟨hdist, -, hload, -⟩ := recycle_spec h
    refine ⟨fun name => ?_, fun name => ?_⟩
    · rw [hload, hdist]
      exact ht.counts.deselect hmem (fun _ _ => SGDist.mem_hosts_eraseHost) name
    · obtain ⟨k', hk'⟩ := ht.room name
      refine ⟨k', ?_⟩
      rw [hdist]
      exact mt (fun hmem' => (SGDist.mem_hosts_eraseHost.mp hmem').2) hk'
  | restore k host =>
    obtain ⟨l, hl, -, hrestore⟩ := restore_eq t k host
    obtain ⟨host', hr⟩ := refresh_spec (hrestore.symm.trans h)
    refine ⟨fun name => ?_, fun name => ?_⟩
    · rw [hr.sLoad, hr.dist]
      exact ht.counts.select hsafe.1 hl (fun _ _ => SGDist.mem_hosts_insert) name
    · rw [hr.dist]
      by_cases hname : name = host
      · subst hname
        obtain ⟨k', hne, hk'⟩ := hsafe.2
        exact ⟨k', by simp [hne, hk']⟩
      · obtain ⟨k', hk'⟩ := ht.room name
        exact ⟨k', by simp [hname, hk']⟩
  | setAllSgkeys host sgkeys =>
    obtain ⟨hnodup, hnot, hroom⟩ := hsafe
    refine ⟨ht.counts.setAllSgkeys hnodup hnot h, fun name => ?_⟩
    obtain ⟨-, hdist⟩ := setAllSgkeys_dist h
    by_cases hname : name = host
    · subst hname
      obtain ⟨k, hk, hmem⟩ := hroom
      exact ⟨k, by rw [hdist]; tauto⟩
    · obtain ⟨k, hk⟩ := ht.room name
      exact ⟨k, by rw [hdist]; tauto⟩

end GraphTable

/-- A safe step. -/
def StorageStep (heap : Heap) (hosts : List String) (t : GraphTable) (a : TableCall)
    (t' : GraphTable) : Prop :=
  TableStep heap hosts t a t' ∧ t.StorageSafe a

/-- **The storage load counts.** In every run of safe calls the counter of a host is the number of
subgraphs whose set of hosts contains the host. -/
theorem storageLoad_counts {heap : Heap} {hosts : List String} {replica : UInt32}
    {as : List TableCall} {t : GraphTable}
    (h : Steps (StorageStep heap hosts) (.new hosts replica) as t) (host : String) :
    (t.sLoad.sgnum host).toNat = {sgkey | host ∈ t.sgDist.hosts sgkey}.ncard := by
  have hzero : (GraphTable.new hosts replica).StorageCounts := fun host => by
    rw [GraphTable.new, Load.new_spec.2]
    exact .zero fun _ => List.not_mem_nil
  obtain ⟨-, ht⟩ := h.invariant (I := fun t => t.Consistent hosts ∧ t.StorageInvariant)
    (fun t a t' ⟨hcons, ht⟩ hstep => ⟨hcons.step hstep.1, ht.step hcons hstep.1 hstep.2⟩)
    ⟨GraphTable.consistent_new hosts replica, hzero, fun _ => ⟨0, List.not_mem_nil⟩⟩
  obtain ⟨k, hk⟩ := ht.room host
  exact (ht.counts host).toNat_eq hk

/-- A subgraph that is created, and another one that the second host reports. -/
theorem storageLoad_counts_small :
    ∃ t, Steps (StorageStep .stable ["a", "b"]) (.new ["a", "b"] 1)
      [.create 0, .setAllSgkeys "b" [1]] t ∧
      (t.sLoad.sgnum "b").toNat = {sgkey | "b" ∈ t.sgDist.hosts sgkey}.ncard := by
  have h₁ : StorageStep .stable ["a", "b"] (.new ["a", "b"] 1) (.create 0)
      (((GraphTable.new ["a", "b"] 1).call .stable (.create 0)).getD (.new ["a", "b"] 1)) :=
    ⟨.of_isSome ⟨fun host => List.not_mem_nil, by decide, by decide +kernel⟩ (by decide +kernel),
      fun host => ⟨1, by decide, List.not_mem_nil⟩⟩
  have h₂ : StorageStep .stable ["a", "b"] (((GraphTable.new ["a", "b"] 1).call .stable
      (.create 0)).getD (.new ["a", "b"] 1)) (.setAllSgkeys "b" [1]) _ :=
    ⟨.of_isSome trivial (by decide +kernel), List.nodup_singleton 1,
      List.forall_mem_singleton.mpr (by decide +kernel), 2, by decide, by decide +kernel⟩
  have h := (Steps.single h₁).snoc h₂
  exact ⟨_, h, storageLoad_counts h "b"⟩

/-- An agent that reports the subgraph which was created on its host. -/
theorem storageLoad_counts_false_of_report :
    ¬∀ as t, Steps (TableStep .stable ["a"]) (.new ["a"] 1) as t →
      ∀ host, (t.sLoad.sgnum host).toNat = {sgkey | host ∈ t.sgDist.hosts sgkey}.ncard := by
  intro hall
  obtain ⟨t₁, h₁, ht₁⟩ : ∃ t₁, TableStep .stable ["a"] (.new ["a"] 1) (.create 0) t₁ ∧
      t₁ = ((GraphTable.new ["a"] 1).call .stable (.create 0)).getD (.new ["a"] 1) :=
    ⟨_, .of_isSome ⟨fun host => List.not_mem_nil, by decide, by decide +kernel⟩
      (by decide +kernel), rfl⟩
  obtain ⟨t₂, h₂, hload⟩ : ∃ t₂, TableStep .stable ["a"] t₁ (.setAllSgkeys "a" [0]) t₂ ∧
      t₂.sLoad.sgnum "a" = 2 :=
    ⟨_, .of_isSome trivial (by rw [ht₁]; decide +kernel), by rw [ht₁]; decide +kernel⟩
  obtain ⟨chosen, -, -, hdist₁⟩ :=
    GraphTable.create_dist (GraphTable.consistent_new ["a"] 1).conf h₁
  obtain ⟨-, hdist₂⟩ := GraphTable.setAllSgkeys_dist h₂.2
  have hle : {sgkey | "a" ∈ t₂.sgDist.hosts sgkey}.ncard ≤ 1 := by
    refine number_le_of_subset [0] fun k hk => ?_
    rcases (hdist₂ k "a").mp hk with ⟨hmem, -⟩ | hk
    · exact hmem
    · rcases (hdist₁ k "a").mp hk with ⟨rfl, -⟩ | hk
      · exact List.mem_cons_self
      · exact absurd hk List.not_mem_nil
  have hcount := hall _ _ ((Steps.single h₁).snoc h₂) "a"
  rw [hload] at hcount
  exact absurd (hcount.trans_le hle) (by decide)

end Nynn
