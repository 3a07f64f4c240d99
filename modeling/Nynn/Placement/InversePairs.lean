import Nynn.Placement.TableCalls

/-!
# Inverse pairs of calls

A destroy undoes the create of a subgraph that the table does not have, and a restore undoes a
recycle, except for the partition and the access load, in which a refresh may elect another host.
The counters of 32 bits go up and down by one, and come back also where they overflow.

Source: `create`, `destroy`, `recycle` and `restore` in `nynn_mm_graph_table.h`.

## Main definitions

* `Nynn.GraphTable.SameStorage`: two tables with the same sets of hosts and the same storage loads.

## Main results

* `Nynn.GraphTable.create_destroy`, `Nynn.GraphTable.recycle_restore`: the pairs.
* `Nynn.table_inverses`: the pairs in every state that calls reach.
-/

namespace Nynn

open Transition

namespace GraphTable

variable {heap : Heap} {hosts : List String} {replica : UInt32} {t t' : GraphTable} {k : UInt32}
  {host : String}

/-- The sets of hosts and the storage loads are the same. -/
structure SameStorage (t t' : GraphTable) : Prop where
  dist : ∀ k host, host ∈ t'.sgDist.hosts k ↔ host ∈ t.sgDist.hosts k
  corrupted : ∀ k host, host ∈ t'.corruptedSgDist.hosts k ↔ host ∈ t.corruptedSgDist.hosts k
  sLoad : ∀ host, t'.sLoad.sgnum host = t.sLoad.sgnum host

/-- **Create and destroy.** A subgraph without hosts and without an entry in the partition. -/
theorem create_destroy (hconf : ∀ host ∈ hosts, host ∈ t.sLoad.hosts)
    (ha : t.Allowed hosts (.create k)) (hpart : t.partition k = none) :
    ∃ t₁, t.create heap k = some t₁ ∧ t.SameStorage (t₁.destroy k) ∧
      (t₁.destroy k).partition = t.partition ∧
      ∀ host, (t₁.destroy k).aLoad.sgnum host = t.aLoad.sgnum host := by
  obtain ⟨chosen, l, hl, hcreate⟩ := create_eq heap hconf ha
  have hdist (k' : UInt32) (host : String) :
      host ∈ (chosen.foldl (fun d host => d.insert k host) t.sgDist).hosts k' ↔
        (k' = k ∧ host ∈ chosen) ∨ host ∈ t.sgDist.hosts k' :=
    SGDist.mem_hosts_foldl_insert chosen
  have hne : t.create heap k ≠ none := by
    obtain ⟨host, hmem⟩ := List.exists_mem_of_length_pos (l := chosen)
      (by rw [hl.length]; exact ha.2.1)
    rw [hcreate, Ne, refresh_eq_none_iff]
    exact fun hnone => hnone host ((hdist k host).mpr (Or.inl ⟨rfl, hmem⟩))
  obtain ⟨t₁, ht₁⟩ := Option.ne_none_iff_exists'.mp hne
  obtain ⟨elected, hr⟩ := refresh_spec (hcreate.symm.trans ht₁)
  have hmem₁ (host : String) : host ∈ t₁.sgDist.hosts k ↔ host ∈ chosen := by
    rw [hr.dist, hdist, or_iff_left (ha.1 host), and_iff_right rfl]
  have hget : t₁.getHost k = elected := by
    rw [getHost, Partition.get, hr.partition, Function.update_self, Option.getD_some]
  refine ⟨t₁, ht₁, ⟨fun k' host => ?_, fun _ _ => by rw [destroy, hr.corrupted], fun host => ?_⟩,
    ?_, fun host => ?_⟩
  · rw [mem_dist_destroy, hr.dist, hdist]
    by_cases hk : k' = k
    · simp [hk, ha.1 host]
    · simp [hk]
  · have hsgnum : (t₁.destroy k).sLoad.sgnum host = if host ∈ (t₁.sgDist.hosts k).hosts
        then t₁.sLoad.sgnum host - 1 else t₁.sLoad.sgnum host :=
      (Load.foldl_assign_spec (· - 1) (t₁.sgDist.hosts k).nodup).1 host
    rw [hsgnum, hr.sLoad, hl.sgnum]
    by_cases hmem : host ∈ chosen
    · have hin : host ∈ (t₁.sgDist.hosts k).hosts := (hmem₁ host).mpr hmem
      rw [if_pos hin, if_pos hmem, UInt32.add_sub_cancel]
    · have hnot : host ∉ (t₁.sgDist.hosts k).hosts := mt (hmem₁ host).mp hmem
      rw [if_neg hnot, if_neg hmem]
  · rw [destroy, hr.partition, Function.update_idem, ← hpart]
    exact Function.update_eq_self k t.partition
  · obtain ⟨l', hl', hsgnum, -⟩ := hr.aLoad
    have hunknown : t.getHost k = unknown := by
      rw [getHost, Partition.get, hpart, Option.getD_none]
    have hsame : t.aLoad = l' := (if_neg (not_not_intro hunknown)).symm.trans hl'
    have hload : (t₁.destroy k).aLoad = t₁.aLoad.deselectHost (t₁.getHost k) := rfl
    rw [hload, hget, Load.deselectHost, Load.sgnum_assign, hsgnum, Function.update_self,
      Function.update_idem, UInt32.add_sub_cancel, hsame, Function.update_eq_self]

/-- **Recycle and restore.** A host that is neither the only one of the subgraph nor corrupted. -/
theorem recycle_restore (hmem : host ∈ t.sgDist.hosts k)
    (hother : ∃ other ∈ (t.sgDist.hosts k).hosts, other ≠ host)
    (hcorrupted : host ∉ t.corruptedSgDist.hosts k) :
    ∃ t₁ t₂, t.recycle k host = some t₁ ∧ t₁.restore k host = some t₂ ∧ t.SameStorage t₂ ∧
      ∀ k' ≠ k, t₁.partition k' = t.partition k' ∧ t₂.partition k' = t.partition k' := by
  obtain ⟨other, hother, hne⟩ := hother
  obtain ⟨t₁, ht₁⟩ := Option.ne_none_iff_exists'.mp (recycle_ne_none hother hne)
  obtain ⟨hdist, hcorr, hload, hpart⟩ := recycle_spec ht₁
  obtain ⟨l, hsgnum, -, hrestore⟩ := restore_eq t₁ k host
  have hsome : t₁.restore k host ≠ none := by
    rw [hrestore, Ne, refresh_eq_none_iff]
    exact fun h => h host (SGDist.mem_hosts_insert.mpr (Or.inl ⟨rfl, rfl⟩))
  obtain ⟨t₂, ht₂⟩ := Option.ne_none_iff_exists'.mp hsome
  obtain ⟨elected, hr⟩ := refresh_spec (hrestore.symm.trans ht₂)
  refine ⟨t₁, t₂, ht₁, ht₂, ⟨fun k' host' => ?_, fun k' host' => ?_, fun host' => ?_⟩,
    fun k' hk => ⟨hpart k' hk, ?_⟩⟩
  · rw [hr.dist, SGDist.mem_hosts_insert, hdist, SGDist.mem_hosts_eraseHost]
    by_cases hsame : k' = k ∧ host' = host
    · obtain ⟨rfl, rfl⟩ := hsame
      simp [hmem]
    · simp [hsame]
  · rw [hr.corrupted, SGDist.mem_hosts_eraseHost, hcorr, SGDist.mem_hosts_insert]
    by_cases hsame : k' = k ∧ host' = host
    · obtain ⟨rfl, rfl⟩ := hsame
      simp [hcorrupted]
    · simp [hsame]
  · rw [hr.sLoad, hsgnum, hload, Load.deselectHost, Load.sgnum_assign, Function.update_self,
      Function.update_idem, UInt32.sub_add_cancel, Function.update_eq_self]
  · rw [hr.partition, Function.update_of_ne hk]
    exact hpart k' hk

end GraphTable

/-- **Inverse pairs.** In every state that calls reach, a destroy undoes the create of a subgraph
without hosts and without an entry in the partition, and a restore undoes the recycle of one of
several hosts that is not corrupted; other subgraphs stay where they are read. -/
theorem table_inverses {heap : Heap} {hosts : List String} {replica : UInt32}
    {as : List TableCall} {t : GraphTable} (hpos : 1 ≤ replica.toNat)
    (hle : replica.toNat ≤ hosts.dedup.length)
    (hrun : Steps (fun t a t' => t.call heap a = some t') (.new hosts replica) as t) :
    (∀ k, (∀ host, host ∉ t.sgDist.hosts k) → t.partition k = none →
      ∃ t₁, t.create heap k = some t₁ ∧ t.SameStorage (t₁.destroy k) ∧
        (t₁.destroy k).partition = t.partition ∧
        ∀ host, (t₁.destroy k).aLoad.sgnum host = t.aLoad.sgnum host) ∧
    ∀ k, ∀ host ∈ t.sgDist.hosts k, (∃ other ∈ (t.sgDist.hosts k).hosts, other ≠ host) →
      host ∉ t.corruptedSgDist.hosts k →
      ∃ t₁ t₂, t.recycle k host = some t₁ ∧ t₁.restore k host = some t₂ ∧ t.SameStorage t₂ ∧
        ∀ k' ≠ k, t₁.partition k' = t.partition k' ∧ t₂.partition k' = t.partition k' := by
  have ht : t.Configured hosts replica :=
    hrun.invariant (fun _ _ _ ht h => ht.call h) GraphTable.configured_new
  refine ⟨fun k hnone hpart => GraphTable.create_destroy ht.conf ⟨hnone, ?_⟩ hpart,
    fun k host hmem hother hcorrupted => GraphTable.recycle_restore hmem hother hcorrupted⟩
  rw [ht.replica_eq]
  exact ⟨hpos, hle⟩

/-- A subgraph that is created and loses a host; then another one comes and goes. -/
theorem table_inverses_small : ∃ t t₁ : GraphTable,
    Steps (fun t a t' => t.call .stable a = some t') (.new ["a", "b"] 2)
      [.create 0, .recycle 0 "b"] t ∧ t.create .stable 1 = some t₁ ∧
    t.SameStorage (t₁.destroy 1) := by
  have hrun : Steps (fun (t : GraphTable) a t' => t.call .stable a = some t')
      (.new ["a", "b"] 2) [.create 0, .recycle 0 "b"] _ := .cons rfl (.cons rfl .nil)
  obtain ⟨t₁, ht₁, hsame, -⟩ := (table_inverses (by decide) (by decide +kernel) hrun).1 1
    (fun _ => List.not_mem_nil) rfl
  exact ⟨_, t₁, hrun, ht₁, hsame⟩

end Nynn
