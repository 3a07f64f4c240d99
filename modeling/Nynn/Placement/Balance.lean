import Nynn.Placement.StorageLoad

/-!
# Placement keeps the storage balanced

A create puts a subgraph on the hosts with the least storage loads. From the fresh table the loads of
the hosts therefore never differ by more than one, however the heap orders hosts with equal loads.
The counters have 32 bits: when every subgraph is on every host, they are all zero again.

Source: `nynn_mm_graph_table.h`.

## Main definitions

* `Nynn.GraphTable.createAll`: a sequence of creates.
* `Nynn.GraphTable.Placed`: what holds after a sequence of creates.

## Main results

* `Nynn.GraphTable.Placed.create`: one more create.
* `Nynn.createAll_balanced`: after a sequence of creates the loads are balanced.
-/

namespace Nynn

open Transition Loads

namespace GraphTable

variable {heap : Heap} {hosts : List String} {replica : UInt32} {t t' : GraphTable}
  {k : UInt32} {keys : List UInt32}

/-- A sequence of creates. -/
def createAll (heap : Heap) (t : GraphTable) (sgkeys : List UInt32) : Option GraphTable :=
  sgkeys.foldlM (fun t sgkey => t.create heap sgkey) t

/-- The number of subgraphs on a host. -/
noncomputable def stored (t : GraphTable) (host : String) : ℕ :=
  number fun k => host ∈ t.sgDist.hosts k

/-- The subgraphs with the given keys have been placed, and no others. -/
structure Placed (hosts : List String) (replica : UInt32) (keys : List UInt32)
    (t : GraphTable) : Prop where
  consistent : t.Consistent hosts
  counts : t.StorageCounts
  replica_eq : t.replica = replica
  names : ∀ name, name ∈ t.sLoad.hosts ↔ name ∈ hosts
  fresh : ∀ k, k ∉ keys → ∀ name, name ∉ t.sgDist.hosts k
  subset : ∀ k name, name ∈ t.sgDist.hosts k → name ∈ hosts
  length : ∀ k ∈ keys, (t.sgDist.hosts k).hosts.length = replica.toNat
  balanced : Balanced hosts.toFinset t.stored
  sum : ∑ host ∈ hosts.toFinset, t.stored host = replica.toNat * keys.length

theorem placed_new (hosts : List String) (replica : UInt32) :
    (new hosts replica).Placed hosts replica [] := by
  have hstored : (new hosts replica).stored = fun _ => 0 :=
    funext fun host => number_of_forall_not fun _ => List.not_mem_nil
  refine ⟨consistent_new hosts replica, fun host => ?_, rfl, Load.new_spec.1,
    fun _ _ _ => List.not_mem_nil, fun _ _ hmem => absurd hmem List.not_mem_nil, nofun, ?_, ?_⟩
  · rw [new, Load.new_spec.2]
    exact .zero fun _ => List.not_mem_nil
  · rw [hstored]
    exact fun _ _ _ _ => Nat.zero_le _
  · rw [hstored, Finset.sum_const_zero, List.length_nil, Nat.mul_zero]

/-- One more create places its subgraph. -/
theorem Placed.create (ht : t.Placed hosts replica keys) (hk : k ∉ keys)
    (h : TableStep heap hosts t (.create k) t') : t'.Placed hosts replica (keys ++ [k]) := by
  obtain ⟨chosen, hl, hreplica, hdist⟩ := create_dist ht.consistent.conf h
  have hchosen : chosen.toFinset ⊆ hosts.toFinset := fun host hmem =>
    List.mem_toFinset.mpr ((ht.names host).mp (hl.subset host (List.mem_toFinset.mp hmem)))
  have hcard : chosen.toFinset.card = replica.toNat := by
    rw [List.toFinset_card_of_nodup hl.nodup, hl.length, ht.replica_eq]
  have hstored : t'.stored = raise chosen.toFinset t.stored := by
    funext host
    rw [stored, raise]
    split_ifs with hmem
    · exact number_insert (ht.fresh k hk host) fun k' => by
        rw [hdist, and_iff_left (List.mem_toFinset.mp hmem)]
    · exact number_congr fun k' => by
        rw [hdist]
        exact or_iff_right fun hand => hmem (List.mem_toFinset.mpr hand.2)
  have hcount : ∀ host, (t.sLoad.sgnum host).toNat = t.stored host := fun host =>
    (ht.counts host).toNat_eq (ht.fresh k hk host)
  refine ⟨ht.consistent.step h, ht.counts.create ht.consistent.conf h, hreplica.trans ht.replica_eq,
    fun name => (hl.hosts name).trans (ht.names name), fun k' hk' name => ?_,
    fun k' name hmem => ?_, fun k' hk' => ?_, ?_, ?_⟩
  · rw [List.mem_append, not_or, List.mem_singleton] at hk'
    rw [hdist, not_or]
    exact ⟨fun hand => hk'.2 hand.1, ht.fresh k' hk'.1 name⟩
  · rcases (hdist k' name).mp hmem with ⟨-, hmem⟩ | hmem
    · exact (ht.names name).mp (hl.subset name hmem)
    · exact ht.subset k' name hmem
  · rcases List.mem_append.mp hk' with hmem | hmem
    · have hne : k' ≠ k := ne_of_mem_of_not_mem hmem hk
      have hperm : (t'.sgDist.hosts k').hosts.Perm (t.sgDist.hosts k').hosts :=
        (List.perm_ext_iff_of_nodup (t'.sgDist.hosts k').nodup (t.sgDist.hosts k').nodup).mpr
          fun name => (hdist k' name).trans (or_iff_right fun hand => hne hand.1)
      rw [hperm.length_eq, ht.length k' hmem]
    · obtain rfl := List.mem_singleton.mp hmem
      have hperm : (t'.sgDist.hosts k').hosts.Perm chosen :=
        (List.perm_ext_iff_of_nodup (t'.sgDist.hosts k').nodup hl.nodup).mpr fun name =>
          (hdist k' name).trans (by simp [ht.fresh k' hk name])
      rw [hperm.length_eq, hl.length, ht.replica_eq]
  · rw [hstored]
    refine ht.balanced.raise fun a ha b hb hnot => ?_
    rw [← hcount, ← hcount]
    exact hl.least a (List.mem_toFinset.mp ha) b ((ht.names b).mpr (List.mem_toFinset.mp hb))
      (mt List.mem_toFinset.mpr hnot)
  · rw [hstored, sum_raise hchosen, ht.sum, hcard, List.length_append, List.length_singleton,
      Nat.mul_succ]

/-- A sequence of creates places its subgraphs. -/
theorem Placed.createAll (ht : t.Placed hosts replica keys) (hpos : 1 ≤ replica.toNat)
    (hle : replica.toNat ≤ hosts.dedup.length) {sgkeys : List UInt32}
    (hnodup : (keys ++ sgkeys).Nodup) :
    ∃ t', t.createAll heap sgkeys = some t' ∧ t'.Placed hosts replica (keys ++ sgkeys) := by
  induction sgkeys generalizing t keys with
  | nil => exact ⟨t, rfl, by rwa [List.append_nil]⟩
  | cons k sgkeys ih =>
    have hk : k ∉ keys := fun hmem =>
      (List.nodup_append.mp hnodup).2.2 k hmem k List.mem_cons_self rfl
    have hallowed : t.Allowed hosts (.create k) :=
      ⟨ht.fresh k hk, ht.replica_eq ▸ hpos, ht.replica_eq ▸ hle⟩
    have hne : t.create heap k ≠ none := ht.consistent.create_ne_none hallowed
    obtain ⟨t₁, h₁⟩ := Option.ne_none_iff_exists'.mp hne
    obtain ⟨t', hrest, ht'⟩ := ih (ht.create hk ⟨hallowed, h₁⟩) (by simpa using hnodup)
    refine ⟨t', ?_, by simpa using ht'⟩
    rw [GraphTable.createAll, List.foldlM_cons]
    exact Option.bind_eq_some_iff.mpr ⟨t₁, h₁, hrest⟩

/-- Unless every subgraph is on every host, no host has all of the `2 ^ 32` subgraphs. -/
theorem Placed.stored_lt (ht : t.Placed hosts replica keys) (hnodup : hosts.Nodup)
    (hkeys : keys.Nodup) (hroom : replica.toNat < hosts.length ∨ keys.length < 2 ^ 32)
    {host : String} (hmem : host ∈ hosts) : t.stored host < 2 ^ 32 := by
  have hstored : t.stored host ≤ keys.length := number_le_of_subset keys fun k hk => by
    by_contra hnot
    exact ht.fresh k hnot host hk
  rcases hroom with hreplica | hlen
  · obtain ⟨m, hm⟩ : ∃ m, 2 ^ 32 = m + 1 := ⟨4294967295, rfl⟩
    have hlt := replica.toNat_lt
    have hlen := length_le_of_nodup hkeys
    rw [hm] at hlt hlen ⊢
    have hsum : ∑ host ∈ hosts.toFinset, t.stored host ≤ hosts.toFinset.card * m := by
      rw [ht.sum, List.toFinset_card_of_nodup hnodup]
      calc replica.toNat * keys.length ≤ replica.toNat * (m + 1) := Nat.mul_le_mul_left _ hlen
        _ = replica.toNat * m + replica.toNat := Nat.mul_succ _ _
        _ ≤ replica.toNat * m + m := Nat.add_le_add_left (Nat.le_of_lt_succ hlt) _
        _ = (replica.toNat + 1) * m := (Nat.succ_mul _ _).symm
        _ ≤ hosts.length * m := Nat.mul_le_mul_right m hreplica
    exact Nat.lt_succ_of_le (ht.balanced.le_of_sum_le hsum (List.mem_toFinset.mpr hmem))
  · omega

end GraphTable

/-- **Placement keeps the storage balanced.** After creates of distinct subgraphs from the fresh
table every subgraph is on exactly `replica` hosts, the storage loads sum to `replica` times the
number of subgraphs, and any two of them differ by at most one, unless all of the `2 ^ 32`
subgraphs are on every host. -/
theorem createAll_balanced {heap : Heap} {hosts : List String} {replica : UInt32}
    {sgkeys : List UInt32} (hhosts : hosts.Nodup) (hpos : 1 ≤ replica.toNat)
    (hle : replica.toNat ≤ hosts.length) (hsgkeys : sgkeys.Nodup)
    (hroom : replica.toNat < hosts.length ∨ sgkeys.length < 2 ^ 32) :
    ∃ t, (GraphTable.new hosts replica).createAll heap sgkeys = some t ∧
      (∀ sgkey ∈ sgkeys, (t.sgDist.hosts sgkey).hosts.Nodup ∧
        (t.sgDist.hosts sgkey).hosts.length = replica.toNat ∧
        ∀ host ∈ (t.sgDist.hosts sgkey).hosts, host ∈ hosts) ∧
      (hosts.map fun host => (t.sLoad.sgnum host).toNat).sum = replica.toNat * sgkeys.length ∧
      ∀ a ∈ hosts, ∀ b ∈ hosts, (t.sLoad.sgnum a).toNat ≤ (t.sLoad.sgnum b).toNat + 1 := by
  obtain ⟨t, hrun, ht⟩ := (GraphTable.placed_new hosts replica).createAll hpos
    (by rwa [hhosts.dedup]) hsgkeys
  rw [List.nil_append] at ht
  have hcount : ∀ host ∈ hosts, (t.sLoad.sgnum host).toNat = t.stored host := fun host hmem =>
    (ht.counts host).toNat_of_lt (ht.stored_lt hhosts hsgkeys hroom hmem)
  refine ⟨t, hrun, fun sgkey hmem => ⟨(t.sgDist.hosts sgkey).nodup, ht.length sgkey hmem,
    ht.subset sgkey⟩, ?_, fun a ha b hb => ?_⟩
  · rw [List.map_congr_left hcount, ← List.sum_toFinset _ hhosts, ht.sum]
  · rw [hcount a ha, hcount b hb]
    exact ht.balanced a (List.mem_toFinset.mpr ha) b (List.mem_toFinset.mpr hb)

/-- Three subgraphs on two of three hosts each. -/
theorem createAll_balanced_small :
    ∃ t, (GraphTable.new ["a", "b", "c"] 2).createAll .stable [0, 2, 4] = some t ∧
      (["a", "b", "c"].map fun host => (t.sLoad.sgnum host).toNat).sum = 6 := by
  have hbalanced : ∃ t, (GraphTable.new ["a", "b", "c"] 2).createAll .stable [0, 2, 4] =
      some t ∧ _ :=
    createAll_balanced (by decide) (by decide) (by decide) (by decide) (Or.inl (by decide))
  obtain ⟨t, hrun, -, hsum, -⟩ := hbalanced
  exact ⟨t, hrun, hsum⟩

/-- With all of the `2 ^ 32` subgraphs on one host its counter cannot show them. -/
theorem createAll_sum_false_of_all :
    ((List.finRange UInt32.size).map UInt32.ofFin).Nodup ∧
      ¬∃ t, (GraphTable.new ["a"] 1).createAll .stable
          ((List.finRange UInt32.size).map UInt32.ofFin) = some t ∧
        (["a"].map fun host => (t.sLoad.sgnum host).toNat).sum =
          1 * ((List.finRange UInt32.size).map UInt32.ofFin).length := by
  refine ⟨(List.nodup_finRange _).map
    (Function.LeftInverse.injective UInt32.toFin_ofFin), ?_⟩
  rintro ⟨t, -, hsum⟩
  rw [List.length_map, List.length_finRange, List.map_singleton, List.sum_singleton,
    Nat.one_mul] at hsum
  exact (t.sLoad.sgnum "a").toNat_lt.ne hsum

end Nynn
