import Mathlib.Data.List.Dedup
import Mathlib.Data.List.Perm.Subperm
import Nynn.Library.Transition
import Nynn.Placement.GraphTable

/-!
# Calls on the table

The calls that the producer makes on the table, and what each of them may be called on. Four of them
refresh the partition of a subgraph: they take it from its host and give it to the host of its
distribution with the least access load.

Source: `nynn_mm_graph_table.h`.

## Main definitions

* `Nynn.TableCall`, `Nynn.GraphTable.call`: the calls.
* `Nynn.GraphTable.NamesHost`, `Nynn.CalledStep`: a recycle and a restore of a host that is there.
* `Nynn.GraphTable.Allowed`, `Nynn.TableStep`: the calls for subgraphs without hosts, on tables with
  enough of them.
* `Nynn.GraphTable.SelectsFromNone`: the calls that have no host to select from.
* `Nynn.GraphTable.Refreshed`: what a refresh does.
* `Nynn.GraphTable.Located`: the partition names a host of the distribution.

## Main results

* `Nynn.GraphTable.Located.call`: every call keeps the partition located.
* `Nynn.partition_live`: in every run the partition points at a live replica, and the calls that
  select from no host are those that recycle the last one, or create more replicas than there are
  hosts.
-/

namespace Nynn

open Transition

/-- A call on the table. -/
inductive TableCall
  | create (sgkey : UInt32)
  | destroy (sgkey : UInt32)
  | getHosts (sgkey : UInt32)
  | getHost (sgkey : UInt32)
  | recycle (sgkey : UInt32) (host : String)
  | restore (sgkey : UInt32) (host : String)
  | setAllSgkeys (host : String) (sgkeys : List UInt32)
  deriving DecidableEq

namespace GraphTable

/-- The table after a call. -/
def call (heap : Heap) (t : GraphTable) : TableCall → Option GraphTable
  | .create sgkey => t.create heap sgkey
  | .destroy sgkey => some (t.destroy sgkey)
  | .getHosts sgkey => some (t.getHosts sgkey).2
  | .getHost _ => some t
  | .recycle sgkey host => t.recycle sgkey host
  | .restore sgkey host => t.restore sgkey host
  | .setAllSgkeys host sgkeys => t.setAllSgkeys host sgkeys

/-- A recycle names a host of the subgraph, a restore a corrupted one. -/
def NamesHost (t : GraphTable) : TableCall → Prop
  | .recycle sgkey host => host ∈ t.sgDist.hosts sgkey
  | .restore sgkey host => host ∈ t.corruptedSgDist.hosts sgkey
  | _ => True

/-- What a call may be made on: a create is for a subgraph without hosts, with at most as many
replicas as configured hosts; a recycle names a host of the subgraph, a restore a corrupted one. -/
def Allowed (hosts : List String) (t : GraphTable) : TableCall → Prop
  | .create sgkey =>
    (∀ host, host ∉ t.sgDist.hosts sgkey) ∧ 1 ≤ t.replica.toNat ∧
      t.replica.toNat ≤ hosts.dedup.length
  | .recycle sgkey host => host ∈ t.sgDist.hosts sgkey
  | .restore sgkey host => host ∈ t.corruptedSgDist.hosts sgkey
  | _ => True

theorem Allowed.namesHost {hosts : List String} {t : GraphTable} {a : TableCall}
    (ha : t.Allowed hosts a) : t.NamesHost a := by
  cases a with
  | create => trivial
  | _ => exact ha

end GraphTable

/-- A call that has a result. -/
def CalledStep (heap : Heap) (t : GraphTable) (a : TableCall) (t' : GraphTable) : Prop :=
  t.NamesHost a ∧ t.call heap a = some t'

theorem CalledStep.of_isSome {heap : Heap} {t : GraphTable} {a : TableCall}
    (ha : t.NamesHost a) (hsome : (t.call heap a).isSome = true) :
    CalledStep heap t a ((t.call heap a).getD t) := by
  obtain ⟨t', ht'⟩ := Option.isSome_iff_exists.mp hsome
  refine ⟨ha, ?_⟩
  rw [ht', Option.getD_some]

/-- An allowed call that has a result. -/
def TableStep (heap : Heap) (hosts : List String) (t : GraphTable) (a : TableCall)
    (t' : GraphTable) : Prop :=
  t.Allowed hosts a ∧ t.call heap a = some t'

theorem TableStep.of_isSome {heap : Heap} {hosts : List String} {t : GraphTable} {a : TableCall}
    (ha : t.Allowed hosts a) (hsome : (t.call heap a).isSome = true) :
    TableStep heap hosts t a ((t.call heap a).getD t) := by
  obtain ⟨t', ht'⟩ := Option.isSome_iff_exists.mp hsome
  refine ⟨ha, ?_⟩
  rw [ht', Option.getD_some]

namespace GraphTable

variable {heap : Heap} {hosts : List String} {t t' : GraphTable} {k : UInt32} {host : String}

/-! ### Refreshing -/

/-- What a refresh of a subgraph does. -/
structure Refreshed (t : GraphTable) (k : UInt32) (host : String) (t' : GraphTable) : Prop where
  mem : host ∈ t.sgDist.hosts k
  dist : t'.sgDist.hosts = t.sgDist.hosts
  corrupted : t'.corruptedSgDist = t.corruptedSgDist
  sLoad : t'.sLoad = t.sLoad
  replica : t'.replica = t.replica
  partition : t'.partition = Function.update t.partition k (some host)
  aLoad : ∃ l, (if t.getHost k ≠ unknown then t.aLoad.minus (t.getHost k) 1 else t.aLoad) = l ∧
    t'.aLoad.sgnum = Function.update l.sgnum host (l.sgnum host + 1) ∧
    ∀ name, name ∈ t'.aLoad.hosts ↔ name ∈ t.sgDist.hosts k ∨ name ∈ l.hosts

theorem refresh_spec (h : t.refresh k = some t') : ∃ host, t.Refreshed k host t' := by
  rw [refresh] at h
  obtain ⟨⟨host, aLoad⟩, hselect, hpure⟩ := Option.bind_eq_some_iff.mp h
  obtain rfl := Option.some.inj hpure
  obtain ⟨hmem, hsgnum, hnames⟩ := Load.selectHost_spec hselect
  exact ⟨host, hmem, funext fun _ => SGDist.hosts_getHosts_snd, rfl, rfl, rfl, rfl, _, rfl, hsgnum,
    hnames⟩

theorem partition_refresh_of_ne {k' : UInt32} (h : t.refresh k = some t') (hk : k' ≠ k) :
    t'.partition k' = t.partition k' := by
  obtain ⟨host, hr⟩ := refresh_spec h
  rw [hr.partition, Function.update_of_ne hk]

/-- A refresh fails just when the subgraph has no host. -/
theorem refresh_eq_none_iff : t.refresh k = none ↔ ∀ host, host ∉ t.sgDist.hosts k := by
  let l := if t.getHost k ≠ unknown then t.aLoad.minus (t.getHost k) 1 else t.aLoad
  have hselect : l.selectHost (t.sgDist.hosts k).hosts = none ↔ (t.sgDist.hosts k).hosts = [] :=
    Load.selectHost_eq_none_iff
  rw [← HostSet.hosts_eq_nil_iff, ← hselect]
  constructor
  · intro h
    by_contra hsome
    obtain ⟨p, hp⟩ := Option.ne_none_iff_exists'.mp hsome
    exact Option.some_ne_none _ (Option.bind_eq_none_iff.mp h p hp)
  · intro hnone
    exact Option.bind_eq_none_iff.mpr fun p hp => Option.some_ne_none p (hp.symm.trans hnone) |>.elim

/-! ### What the calls do before they refresh -/

/-- The hosts with counters are at least the configured ones. -/
private theorem length_dedup_le (hconf : ∀ host ∈ hosts, host ∈ t.sLoad.hosts) :
    hosts.dedup.length ≤ t.sLoad.hosts.hosts.length :=
  have hsub : hosts.dedup ⊆ t.sLoad.hosts.hosts := fun host hmem =>
    hconf host (List.mem_dedup.mp hmem)
  (hosts.nodup_dedup.subperm hsub).length_le

/-- A create selects hosts, puts them in the distribution and refreshes. -/
theorem create_eq (heap : Heap) (hconf : ∀ host ∈ hosts, host ∈ t.sLoad.hosts)
    (ha : t.Allowed hosts (.create k)) :
    ∃ chosen l, t.sLoad.Selected t.replica chosen l ∧ t.create heap k =
      refresh { t with
        sgDist := chosen.foldl (fun d host => d.insert k host) t.sgDist
        sLoad := l } k := by
  have hle := ha.2.2.trans (length_dedup_le hconf)
  obtain ⟨chosen, l, hselect, hl⟩ := Load.selectReplicHosts_spec heap ha.2.1 hle
  refine ⟨chosen, l, hl, ?_⟩
  rw [create, hselect]
  rfl

/-- A restore puts the host in the distribution and refreshes. -/
theorem restore_eq (t : GraphTable) (k : UInt32) (host : String) :
    ∃ l, l.sgnum = Function.update t.sLoad.sgnum host (t.sLoad.sgnum host + 1) ∧
      (∀ name, name ∈ l.hosts ↔ name = host ∨ name ∈ t.sLoad.hosts) ∧ t.restore k host =
        refresh { t with
          corruptedSgDist := t.corruptedSgDist.eraseHost k host
          sgDist := t.sgDist.insert k host
          sLoad := l } k := by
  obtain ⟨⟨host', l⟩, hselect⟩ := Option.ne_none_iff_exists'.mp
    (mt (Load.selectHost_eq_none_iff (l := t.sLoad)).mp (List.cons_ne_nil host []))
  obtain ⟨hmem, hsgnum, hnames⟩ := Load.selectHost_spec hselect
  obtain rfl := List.mem_singleton.mp hmem
  refine ⟨l, hsgnum, by simpa using hnames, ?_⟩
  rw [restore, hselect]
  rfl

/-- A recycle moves the host between the distributions. -/
theorem recycle_spec (h : t.recycle k host = some t') :
    t'.sgDist.hosts = (t.sgDist.eraseHost k host).hosts ∧
      t'.corruptedSgDist = t.corruptedSgDist.insert k host ∧
      t'.sLoad = t.sLoad.deselectHost host ∧ ∀ k' ≠ k, t'.partition k' = t.partition k' := by
  rw [recycle] at h
  split_ifs at h
  · obtain ⟨host', hr⟩ := refresh_spec h
    refine ⟨hr.dist, hr.corrupted, hr.sLoad, fun k' hk => ?_⟩
    rw [hr.partition, Function.update_of_ne hk]
  · obtain rfl := Option.some.inj h
    exact ⟨rfl, rfl, rfl, fun _ _ => rfl⟩

/-- A recycle of one of several hosts has a result. -/
theorem recycle_ne_none {other : String} (hmem : other ∈ t.sgDist.hosts k) (hne : other ≠ host) :
    t.recycle k host ≠ none := by
  rw [recycle]
  split_ifs
  · rw [Ne, refresh_eq_none_iff]
    exact fun h => h other (SGDist.mem_hosts_eraseHost.mpr ⟨fun e => hne e.2, hmem⟩)
  · exact Option.some_ne_none _

/-- A subgraph of a report is put in the distribution and refreshed. -/
def report (t : GraphTable) (host : String) (sgkey : UInt32) : Option GraphTable :=
  { t with sgDist := t.sgDist.insert sgkey host }.refresh sgkey

theorem setAllSgkeys_eq (sgkeys : List UInt32) :
    t.setAllSgkeys host sgkeys = sgkeys.foldlM (fun t sgkey => t.report host sgkey)
      { t with sLoad := t.sLoad.plus host (.ofNat sgkeys.length) } := rfl

theorem report_ne_none : t.report host k ≠ none := by
  rw [report, Ne, refresh_eq_none_iff]
  exact fun h => h host (SGDist.mem_hosts_insert.mpr (Or.inl ⟨rfl, rfl⟩))

/-- What every report keeps, a list of reports keeps, and it has a result. -/
theorem foldlM_report {I : GraphTable → Prop} (host : String) (sgkeys : List UInt32) (ht : I t)
    (hstep : ∀ t, ∀ sgkey ∈ sgkeys, ∀ t', I t → t.report host sgkey = some t' → I t') :
    ∃ t', sgkeys.foldlM (fun t sgkey => t.report host sgkey) t = some t' ∧ I t' := by
  induction sgkeys generalizing t with
  | nil => exact ⟨t, rfl, ht⟩
  | cons sgkey sgkeys ih =>
    obtain ⟨t', hreport⟩ := Option.ne_none_iff_exists'.mp (report_ne_none (t := t) (k := sgkey))
    obtain ⟨t'', hrest, ht''⟩ := ih (hstep t sgkey List.mem_cons_self t' ht hreport)
      fun t sgkey hmem => hstep t sgkey (List.mem_cons_of_mem _ hmem)
    refine ⟨t'', ?_, ht''⟩
    rw [List.foldlM_cons, hreport]
    exact hrest

/-! ### The partition names a host of the distribution -/

/-- The partition names a host of the subgraph, or the subgraph has no host. -/
def LocatedAt (t : GraphTable) (k : UInt32) : Prop :=
  match t.partition k with
  | some host => host ∈ t.sgDist.hosts k
  | none => ∀ host, host ∉ t.sgDist.hosts k

/-- The partition names a host of every subgraph that has hosts. -/
def Located (t : GraphTable) : Prop :=
  ∀ k, t.LocatedAt k

theorem LocatedAt.congr (ht : t.LocatedAt k) (hpart : t'.partition k = t.partition k)
    (hdist : ∀ host, host ∈ t'.sgDist.hosts k ↔ host ∈ t.sgDist.hosts k) : t'.LocatedAt k := by
  rw [LocatedAt, hpart]
  rw [LocatedAt] at ht
  cases hk : t.partition k with
  | some host =>
    rw [hk] at ht
    exact (hdist host).mpr ht
  | none =>
    rw [hk] at ht
    exact fun host hmem => ht host ((hdist host).mp hmem)

/-- A refresh after a change of the distribution of one subgraph. -/
theorem Located.refresh {t₁ : GraphTable} (ht : t.Located) (h : t₁.refresh k = some t')
    (hpart : t₁.partition = t.partition)
    (hdist : ∀ k' ≠ k, ∀ host, host ∈ t₁.sgDist.hosts k' ↔ host ∈ t.sgDist.hosts k') :
    t'.Located := by
  obtain ⟨host, hr⟩ := refresh_spec h
  intro k'
  by_cases hk : k' = k
  · subst hk
    rw [LocatedAt, hr.partition, Function.update_self, hr.dist]
    exact hr.mem
  · refine (ht k').congr ?_ fun host => ?_
    · rw [hr.partition, Function.update_of_ne hk, hpart]
    · rw [hr.dist, hdist k' hk]

theorem Located.report (ht : t.Located) (h : t.report host k = some t') : t'.Located := by
  rw [GraphTable.report] at h
  exact ht.refresh h rfl fun k' hk host' => by simp [hk]

theorem mem_dist_destroy {k' : UInt32} :
    host ∈ (t.destroy k).sgDist.hosts k' ↔ k' ≠ k ∧ host ∈ t.sgDist.hosts k' := by
  rw [destroy, SGDist.mem_hosts_erase, SGDist.hosts_getHosts_snd]

theorem Located.destroy (ht : t.Located) : (t.destroy k).Located := by
  intro k'
  by_cases hk : k' = k
  · subst hk
    have hpart : (t.destroy k').partition k' = none := Function.update_self ..
    rw [LocatedAt, hpart]
    exact fun host hmem => (mem_dist_destroy.mp hmem).1 rfl
  · refine (ht k').congr (Function.update_of_ne hk _ _) fun host => ?_
    simp [mem_dist_destroy, hk]

theorem Located.getHosts (ht : t.Located) : (t.getHosts k).2.Located := fun k' =>
  (ht k').congr rfl fun host => by simp [GraphTable.getHosts]

/-- The host that the partition names is the only host on which a recycle refreshes. -/
theorem Located.partition_eq (ht : t.Located) (hmem : host ∈ t.sgDist.hosts k) :
    host = t.getHost k ↔ t.partition k = some host := by
  have hk := ht k
  rw [LocatedAt] at hk
  rw [getHost, Partition.get]
  cases hpart : t.partition k with
  | some host' =>
    rw [Option.getD_some, Option.some_inj]
    exact eq_comm
  | none =>
    rw [hpart] at hk
    exact absurd hmem (hk host)

/-- A recycle refreshes when the partition names the host. -/
theorem Located.recycle_eq (ht : t.Located) (hmem : host ∈ t.sgDist.hosts k) :
    t.recycle k host =
      if t.partition k = some host then
        GraphTable.refresh { t with
          sgDist := t.sgDist.eraseHost k host
          corruptedSgDist := t.corruptedSgDist.insert k host
          sLoad := t.sLoad.deselectHost host
          aLoad := t.aLoad.deselectHost host } k
      else some { t with
        sgDist := t.sgDist.eraseHost k host
        corruptedSgDist := t.corruptedSgDist.insert k host
        sLoad := t.sLoad.deselectHost host } := by
  rw [GraphTable.recycle]
  exact if_congr (ht.partition_eq hmem) rfl rfl

theorem Located.recycle (ht : t.Located) (hmem : host ∈ t.sgDist.hosts k)
    (h : t.recycle k host = some t') : t'.Located := by
  rw [ht.recycle_eq hmem] at h
  split_ifs at h with hpart
  · exact ht.refresh h rfl fun k' hk host' => by simp [hk]
  · obtain rfl := Option.some.inj h
    intro k'
    have hk' := ht k'
    rw [LocatedAt] at hk' ⊢
    dsimp only
    cases hp : t.partition k' with
    | some host' =>
      rw [hp] at hk'
      refine SGDist.mem_hosts_eraseHost.mpr ⟨?_, hk'⟩
      rintro ⟨rfl, rfl⟩
      exact hpart hp
    | none =>
      rw [hp] at hk'
      exact fun host' hmem' => hk' host' (SGDist.mem_hosts_eraseHost.mp hmem').2

/-! ### The configured hosts -/

variable {replica : UInt32}

/-- The hosts of the configuration have counters, and the number of replicas is the configured
one. -/
structure Configured (hosts : List String) (replica : UInt32) (t : GraphTable) : Prop where
  conf : ∀ host ∈ hosts, host ∈ t.sLoad.hosts
  replica_eq : t.replica = replica

/-- The selection takes no counter away. -/
private theorem mem_of_selectLoop {n : UInt32} {v : List LoadPair} {chosen chosen' : List String}
    {l l' : Load} (h : Load.selectLoop n v chosen l = some (chosen', l'))
    (hmem : host ∈ l.hosts) : host ∈ l'.hosts := by
  induction v generalizing chosen l with
  | nil => cases h
  | cons loadPair v ih =>
    rw [Load.selectLoop] at h
    have hassign (name : String) (n : UInt32) : host ∈ (l.assign name n).hosts :=
      Load.mem_hosts_assign.mpr (Or.inr hmem)
    split at h
    · exact ih h (hassign _ _)
    · obtain ⟨-, rfl⟩ := Prod.mk.inj (Option.some.inj h)
      exact hassign _ _

/-- A change of the storage load that takes no counter away. -/
private theorem Configured.of_load (ht : t.Configured hosts replica)
    (hload : ∀ host, host ∈ t.sLoad.hosts → host ∈ t'.sLoad.hosts)
    (hreplica : t'.replica = t.replica) : t'.Configured hosts replica :=
  ⟨fun host hmem => hload host (ht.conf host hmem), hreplica.trans ht.replica_eq⟩

/-- A refresh after such a change. -/
private theorem Configured.refresh {t₁ : GraphTable} (ht : t.Configured hosts replica)
    (h : t₁.refresh k = some t') (hreplica : t₁.replica = t.replica)
    (hload : ∀ host, host ∈ t.sLoad.hosts → host ∈ t₁.sLoad.hosts) :
    t'.Configured hosts replica := by
  obtain ⟨host, hr⟩ := refresh_spec h
  exact ht.of_load (hr.sLoad ▸ hload) (hr.replica.trans hreplica)

/-- Every call keeps the configuration. -/
theorem Configured.call {a : TableCall} (ht : t.Configured hosts replica)
    (h : t.call heap a = some t') : t'.Configured hosts replica := by
  cases a with
  | create k =>
    obtain ⟨⟨chosen, l⟩, hselect, hrefresh⟩ := Option.bind_eq_some_iff.mp h
    exact ht.refresh hrefresh rfl fun _ hmem => mem_of_selectLoop hselect hmem
  | destroy k =>
    obtain rfl := Option.some.inj h
    refine ht.of_load (fun name hmem => ?_) rfl
    exact ((Load.foldl_assign_spec (· - 1) (t.sgDist.hosts k).nodup).2 name).mpr (Or.inr hmem)
  | getHosts k => exact Option.some.inj h ▸ ht.of_load (fun _ hmem => hmem) rfl
  | getHost k => exact Option.some.inj h ▸ ht
  | recycle k host =>
    have hload : ∀ name, name ∈ t.sLoad.hosts → name ∈ (t.sLoad.deselectHost host).hosts :=
      fun name hmem => Load.mem_hosts_assign.mpr (Or.inr hmem)
    rw [GraphTable.call, recycle] at h
    split at h
    · exact ht.refresh h rfl hload
    · obtain rfl := Option.some.inj h
      exact ht.of_load hload rfl
  | restore k host =>
    obtain ⟨l, -, hnames, hrestore⟩ := restore_eq t k host
    exact ht.refresh (hrestore.symm.trans h) rfl fun name hmem => (hnames name).mpr (Or.inr hmem)
  | setAllSgkeys host sgkeys =>
    obtain ⟨t'', hfold, ht''⟩ := foldlM_report (I := Configured hosts replica) host sgkeys
      (t := { t with sLoad := t.sLoad.plus host (.ofNat sgkeys.length) })
      (ht.of_load (fun name hmem => Load.mem_hosts_assign.mpr (Or.inr hmem)) rfl)
      fun t k _ t' ht hreport => by
        rw [report] at hreport
        exact ht.refresh hreport rfl fun _ hmem => hmem
    rw [GraphTable.call, setAllSgkeys_eq, hfold] at h
    exact Option.some.inj h ▸ ht''

theorem configured_new : (new hosts replica).Configured hosts replica :=
  ⟨fun host hmem => (Load.new_spec.1 host).mpr hmem, rfl⟩

/-! ### Runs -/

/-- The partition is located and the configured hosts have counters. -/
structure Consistent (hosts : List String) (t : GraphTable) : Prop where
  located : t.Located
  conf : ∀ host ∈ hosts, host ∈ t.sLoad.hosts

theorem consistent_new (hosts : List String) (replica : UInt32) :
    (new hosts replica).Consistent hosts where
  located k := by
    rw [LocatedAt]
    exact fun host => List.not_mem_nil
  conf host hmem := (Load.new_spec.1 host).mpr hmem

/-- A report keeps the storage load. -/
theorem sLoad_report (h : t.report host k = some t') : t'.sLoad = t.sLoad := by
  rw [report] at h
  obtain ⟨host', hr⟩ := refresh_spec h
  exact hr.sLoad

/-- Every call keeps the partition located. -/
theorem Located.call {a : TableCall} (ht : t.Located) (ha : t.NamesHost a)
    (h : t.call heap a = some t') : t'.Located := by
  cases a with
  | create k =>
    obtain ⟨⟨chosen, l⟩, -, hrefresh⟩ := Option.bind_eq_some_iff.mp h
    refine ht.refresh hrefresh rfl fun k' hk host' => ?_
    rw [SGDist.mem_hosts_foldl_insert]
    simp [hk]
  | destroy k => exact Option.some.inj h ▸ ht.destroy
  | getHosts k => exact Option.some.inj h ▸ ht.getHosts
  | getHost k => exact Option.some.inj h ▸ ht
  | recycle k host => exact ht.recycle ha h
  | restore k host =>
    obtain ⟨l, -, -, hrestore⟩ := restore_eq t k host
    exact ht.refresh (hrestore.symm.trans h) rfl fun k' hk host' => by simp [hk]
  | setAllSgkeys host sgkeys =>
    obtain ⟨t'', hfold, ht''⟩ := foldlM_report (I := Located) host sgkeys
      (t := { t with sLoad := t.sLoad.plus host (.ofNat sgkeys.length) })
      ht fun t k _ t' ht hreport => ht.report hreport
    rw [GraphTable.call, setAllSgkeys_eq, hfold] at h
    exact Option.some.inj h ▸ ht''

/-- Every call keeps the table consistent. -/
theorem Consistent.step {a : TableCall} (ht : t.Consistent hosts)
    (h : TableStep heap hosts t a t') : t'.Consistent hosts :=
  ⟨ht.located.call h.1.namesHost h.2, (Configured.call ⟨ht.conf, rfl⟩ h.2).conf⟩

/-- The call recycles the last host of a subgraph, or it creates a subgraph when fewer hosts have a
counter than it takes, which is one at least. -/
def SelectsFromNone (t : GraphTable) : TableCall → Prop
  | .create _ => t.sLoad.hosts.hosts.length < max 1 t.replica.toNat
  | .recycle sgkey host => ∀ host', host' ∈ t.sgDist.hosts sgkey ↔ host' = host
  | _ => False

/-- The calls that select from no host. -/
theorem Located.call_eq_none_iff {a : TableCall} (ht : t.Located) (ha : t.NamesHost a) :
    t.call heap a = none ↔ t.SelectsFromNone a := by
  cases a with
  | create k =>
    rw [SelectsFromNone, ← Load.selectReplicHosts_eq_none_iff heap]
    refine ⟨fun hnone => ?_, fun hnone => ?_⟩
    · by_contra hsome
      obtain ⟨⟨chosen, l⟩, hselect⟩ := Option.ne_none_iff_exists'.mp hsome
      -- the refresh has the hosts to select from that were just put in
      have hrefresh := Option.bind_eq_none_iff.mp hnone _ hselect
      obtain ⟨host, hmem⟩ :=
        List.exists_mem_of_ne_nil _ (Load.ne_nil_of_selectReplicHosts hselect)
      exact refresh_eq_none_iff.mp hrefresh host
        ((SGDist.mem_hosts_foldl_insert _).mpr (Or.inl ⟨rfl, hmem⟩))
    · exact Option.bind_eq_none_iff.mpr fun p hp => (Option.some_ne_none p (hp.symm.trans hnone)).elim
  | destroy k => exact iff_of_false (Option.some_ne_none _) id
  | getHosts k => exact iff_of_false (Option.some_ne_none _) id
  | getHost k => exact iff_of_false (Option.some_ne_none _) id
  | recycle k host =>
    have hmem : host ∈ t.sgDist.hosts k := ha
    rw [SelectsFromNone, GraphTable.call, ht.recycle_eq ha]
    split_ifs with hpart
    · rw [refresh_eq_none_iff]
      refine forall_congr' fun host' => ?_
      rw [SGDist.mem_hosts_eraseHost]
      constructor
      · intro hnot
        refine ⟨fun hmem' => ?_, fun e => e ▸ hmem⟩
        by_contra hne
        exact hnot ⟨fun hand => hne hand.2, hmem'⟩
      · rintro hall ⟨hne, hmem'⟩
        exact hne ⟨rfl, hall.mp hmem'⟩
    · refine iff_of_false id fun hall => hpart ?_
      have hk := ht k
      rw [LocatedAt] at hk
      cases hp : t.partition k with
      | none =>
        rw [hp] at hk
        exact absurd hmem (hk host)
      | some host' =>
        rw [hp] at hk
        rw [(hall host').mp hk]
  | restore k host =>
    obtain ⟨l, -, -, hrestore⟩ := restore_eq t k host
    rw [GraphTable.call, hrestore, refresh_eq_none_iff]
    exact iff_of_false (fun hnone => hnone host (by simp)) id
  | setAllSgkeys host sgkeys =>
    obtain ⟨t'', hfold, -⟩ := foldlM_report (I := fun _ => True) host sgkeys
      (t := { t with sLoad := t.sLoad.plus host (.ofNat sgkeys.length) })
      trivial fun _ _ _ _ _ _ => trivial
    rw [GraphTable.call, setAllSgkeys_eq, hfold]
    exact iff_of_false (Option.some_ne_none _) id

/-- An allowed create has hosts to select from. -/
theorem Consistent.create_ne_none (ht : t.Consistent hosts) (ha : t.Allowed hosts (.create k)) :
    t.create heap k ≠ none := by
  refine mt (ht.located.call_eq_none_iff (a := .create k) trivial).mp ?_
  have hle := ha.2.2.trans (length_dedup_le ht.conf)
  exact Nat.not_lt.mpr (max_le (ha.2.1.trans hle) hle)

end GraphTable

/-- **The partition points at a live replica.** In every run `getHost` returns a host of the
subgraph, or `UNKNOWN` when it has none, and a call has hosts to select from if and only if it is
neither a recycle of the last host of a subgraph nor a create with too few hosts. -/
theorem partition_live {heap : Heap} {hosts : List String} {replica : UInt32}
    {as : List TableCall} {t : GraphTable}
    (h : Steps (CalledStep heap) (.new hosts replica) as t) :
    (∀ sgkey, (∃ host, host ∈ t.sgDist.hosts sgkey) → t.getHost sgkey ∈ t.sgDist.hosts sgkey) ∧
    (∀ sgkey, (∀ host, host ∉ t.sgDist.hosts sgkey) → t.getHost sgkey = unknown) ∧
    ∀ a, t.NamesHost a → ((t.call heap a).isSome ↔ ¬t.SelectsFromNone a) := by
  have ht := h.invariant (I := GraphTable.Located) (fun _ _ _ ht ha => ht.call ha.1 ha.2)
    (GraphTable.consistent_new hosts replica).located
  refine ⟨fun sgkey ⟨host, hmem⟩ => ?_, fun sgkey hnone => ?_, fun a ha => ?_⟩
  · have hk := ht sgkey
    rw [GraphTable.LocatedAt] at hk
    rw [GraphTable.getHost, Partition.get]
    cases hp : t.partition sgkey with
    | some host' =>
      rw [hp] at hk
      exact hk
    | none =>
      rw [hp] at hk
      exact absurd hmem (hk host)
  · have hk := ht sgkey
    rw [GraphTable.LocatedAt] at hk
    rw [GraphTable.getHost, Partition.get]
    cases hp : t.partition sgkey with
    | some host' =>
      rw [hp] at hk
      exact absurd hk (hnone host')
    | none => rfl
  · rw [← ht.call_eq_none_iff ha, ← Option.ne_none_iff_isSome]

/-- A subgraph on two hosts that loses the host it is read from. -/
theorem partition_live_small :
    ∃ t, Steps (CalledStep .stable) (.new ["a", "b"] 2) [.create 0, .recycle 0 "a"] t ∧
      t.getHost 0 ∈ t.sgDist.hosts 0 ∧ (t.call .stable (.destroy 0)).isSome = true := by
  have h₁ : CalledStep .stable (.new ["a", "b"] 2) (.create 0) _ :=
    .of_isSome trivial (by decide +kernel)
  have h₂ : CalledStep .stable _ (.recycle 0 "a") _ :=
    .of_isSome (t := ((GraphTable.new ["a", "b"] 2).call .stable (.create 0)).getD
      (.new ["a", "b"] 2)) (show _ ∈ _ by decide +kernel) (by decide +kernel)
  have h := (Steps.single h₁).snoc h₂
  have hlive := partition_live h
  exact ⟨_, h, hlive.1 0 ⟨"b", by decide +kernel⟩, (hlive.2.2 (.destroy 0) trivial).mpr id⟩

/-- A recycle of the last host of a subgraph selects from no host. -/
theorem partition_live_false_of_last :
    ¬∀ as t, Steps (CalledStep .stable) (.new ["a"] 1) as t →
      ∀ a, t.NamesHost a → (t.call .stable a).isSome = true := by
  intro hall
  have h : CalledStep .stable (.new ["a"] 1) (.create 0) _ :=
    .of_isSome trivial (by decide +kernel)
  have hsome := hall _ _ (.single h) (.recycle 0 "a") (show _ ∈ _ by decide +kernel)
  exact absurd hsome (by decide +kernel)

end Nynn
