import Nynn.Placement.TableCalls

/-!
# Re-election of the access host

A refresh of a subgraph takes it from the host that it is read from and gives it to the host of its
distribution with the least access load. A second refresh takes the same subgraph back and finds the
same counters, so that it elects the same host among those with equal counters too.

The name `UNKNOWN` stands for no host: a subgraph that is read from a host of this name is not taken
back from it.

Source: `GraphTable::refresh`, `Load::selectHost`, `Load::minus` in `nynn_mm_graph_table.h`.

## Main definitions

* `Nynn.GraphTable.accessWithout`: the access loads without the contribution of the subgraph.
* `Nynn.GraphTable.Reelected`: what a refresh does to the table.

## Main results

* `Nynn.refresh_reelects`: a refresh elects a least loaded host, and a second one changes nothing.
-/

namespace Nynn

/-! ### Changes of a load that leave it as it is -/

namespace Load

variable {l : Load} {host : String} {hosts : List String}

theorem eq_of {l l' : Load} (hhosts : l.hosts = l'.hosts) (hsgnum : l.sgnum = l'.sgnum) :
    l = l' := by
  cases l
  cases l'
  obtain rfl : _ = _ := hhosts
  obtain rfl : _ = _ := hsgnum
  rfl

private theorem insert_of_mem {s : HostSet} (h : host ∈ s) : s.insert host = s := dif_pos h

theorem touch_of_mem (h : host ∈ l.hosts) : l.touch host = l :=
  eq_of (insert_of_mem h) rfl

theorem foldl_touch_of_mem (h : ∀ host ∈ hosts, host ∈ l.hosts) : hosts.foldl touch l = l := by
  induction hosts with
  | nil => rfl
  | cons host hosts ih =>
    rw [List.foldl_cons, touch_of_mem (h host List.mem_cons_self)]
    exact ih fun host' hmem => h host' (List.mem_cons_of_mem _ hmem)

/-- A counter that goes up by one and down by one. -/
theorem minus_assign_add_one (h : host ∈ l.hosts) :
    (l.assign host (l.sgnum host + 1)).minus host 1 = l := by
  refine eq_of ?_ ?_
  · have hmem : host ∈ l.hosts.insert host := HostSet.mem_insert.mpr (Or.inl rfl)
    exact (insert_of_mem hmem).trans (insert_of_mem h)
  · rw [minus, sgnum_assign, sgnum_assign, Function.update_self, Function.update_idem,
      UInt32.add_sub_cancel]
    exact Function.update_eq_self host l.sgnum

/-- `selectHost` takes the first host with the least counter of those that it has touched. -/
theorem selectHost_eq_some {l' : Load} (h : l.selectHost hosts = some (host, l')) :
    l' = (hosts.foldl touch l).assign host ((hosts.foldl touch l).sgnum host + 1) ∧
      ((hosts.map fun host => (host, l.sgnum host)).argmin fun p : LoadPair => p.2.toNat) =
        some (host, l.sgnum host) := by
  obtain ⟨front, hargmin, hfront⟩ := Option.map_eq_some_iff.mp h
  rw [Prod.mk.injEq] at hfront
  obtain ⟨rfl, rfl⟩ := hfront
  rw [sgnum_foldl_touch] at hargmin
  obtain ⟨host, -, rfl⟩ := List.mem_map.mp (List.argmin_mem hargmin)
  exact ⟨rfl, hargmin⟩

/-- The host that is selected has the least counter. -/
theorem selectHost_least {l' : Load} (h : l.selectHost hosts = some (host, l')) {host' : String}
    (hmem : host' ∈ hosts) : (l.sgnum host).toNat ≤ (l.sgnum host').toNat :=
  List.le_of_mem_argmin (f := fun p : LoadPair => p.2.toNat)
    (List.mem_map_of_mem (f := fun host => (host, l.sgnum host)) hmem) (selectHost_eq_some h).2

end Load

namespace GraphTable

variable {t t' : GraphTable} {k : UInt32} {host : String}

/-- The access load of a host, without the contribution of the subgraph. -/
def accessWithout (t : GraphTable) (k : UInt32) (host : String) : ℕ :=
  (t.aLoad.sgnum host).toNat - if t.partition k = some host then 1 else 0

/-- The subgraph is read from the host, one with the least load, and from no other host. -/
structure Reelected (t : GraphTable) (k : UInt32) (host : String) (t' : GraphTable) : Prop where
  mem : host ∈ t.sgDist.hosts k
  least : ∀ host' ∈ t.sgDist.hosts k, t.accessWithout k host ≤ t.accessWithout k host'
  partition : t'.partition = Function.update t.partition k (some host)
  aLoad : ∀ host', (t'.aLoad.sgnum host').toNat =
    (t.accessWithout k host' + if host' = host then 1 else 0) % 2 ^ 32
  sLoad : t'.sLoad = t.sLoad
  dist : t'.sgDist.hosts = t.sgDist.hosts
  corrupted : t'.corruptedSgDist.hosts = t.corruptedSgDist.hosts

/-- The access load when the subgraph has been taken from its host. -/
private def withoutOwn (t : GraphTable) (k : UInt32) : Load :=
  if t.getHost k ≠ unknown then t.aLoad.minus (t.getHost k) 1 else t.aLoad

private theorem refresh_eq_some {l : Load}
    (h : (t.withoutOwn k).selectHost (t.sgDist.hosts k).hosts = some (host, l)) :
    t.refresh k = some { t with
      sgDist := Function.update t.sgDist k (some (t.sgDist.hosts k))
      aLoad := l
      partition := Function.update t.partition k (some host) } :=
  Option.bind_eq_some_iff.mpr ⟨(host, l), h, rfl⟩

private theorem getHost_eq (hpart : t.partition k = some host) : t.getHost k = host := by
  rw [getHost, Partition.get, hpart, Option.getD_some]

private theorem sgnum_withoutOwn (hpart : t.partition k ≠ some unknown)
    (hpos : ∀ host, t.partition k = some host → t.aLoad.sgnum host ≠ 0) (host : String) :
    ((t.withoutOwn k).sgnum host).toNat = t.accessWithout k host := by
  rw [withoutOwn, accessWithout]
  cases hk : t.partition k with
  | none =>
    have hget : t.getHost k = unknown := by
      rw [getHost, Partition.get, hk, Option.getD_none]
    rw [if_neg (not_not_intro hget), if_neg (by simp), Nat.sub_zero]
  | some old =>
    have hne : old ≠ unknown := fun e => hpart (e ▸ hk)
    rw [getHost_eq hk, if_pos hne, Load.minus, Load.sgnum_assign]
    by_cases hhost : host = old
    · subst hhost
      have hone : (1 : UInt32) ≤ t.aLoad.sgnum host := by
        have hne := hpos host hk
        rw [Ne, ← UInt32.toNat_inj] at hne
        rw [UInt32.le_iff_toNat_le]
        exact Nat.one_le_iff_ne_zero.mpr hne
      rw [Function.update_self, if_pos rfl, UInt32.toNat_sub_of_le _ _ hone]
      rfl
    · rw [Function.update_of_ne hhost, if_neg fun e => hhost (Option.some.inj e).symm, Nat.sub_zero]

/-- A second refresh takes the subgraph back and elects the same host. -/
private theorem refresh_refresh (hunknown : unknown ∉ t.sgDist.hosts k) {l : Load}
    (h : (t.withoutOwn k).selectHost (t.sgDist.hosts k).hosts = some (host, l))
    (ht : t.refresh k = some t') : t'.refresh k = some t' := by
  obtain ⟨hl, -⟩ := Load.selectHost_eq_some h
  have hmem : host ∈ t.sgDist.hosts k := (Load.selectHost_spec h).1
  let l₁ := (t.sgDist.hosts k).hosts.foldl Load.touch (t.withoutOwn k)
  have hnames : ∀ name ∈ (t.sgDist.hosts k).hosts, name ∈ l₁.hosts := fun name hname =>
    Load.mem_hosts_foldl_touch.mpr (Or.inl hname)
  obtain rfl := Option.some.inj ((refresh_eq_some h).symm.trans ht)
  have hdist : SGDist.hosts (Function.update t.sgDist k (some (t.sgDist.hosts k))) k =
      t.sgDist.hosts k := SGDist.hosts_getHosts_snd
  -- the counters are those of the first election
  have hwithout : withoutOwn { t with
      sgDist := Function.update t.sgDist k (some (t.sgDist.hosts k))
      aLoad := l
      partition := Function.update t.partition k (some host) } k = l₁ := by
    have hget : getHost { t with
        sgDist := Function.update t.sgDist k (some (t.sgDist.hosts k))
        aLoad := l
        partition := Function.update t.partition k (some host) } k = host :=
      getHost_eq (Function.update_self ..)
    have hne : host ≠ unknown := fun e => hunknown (e ▸ hmem)
    rw [withoutOwn, hget, if_pos hne, hl]
    exact Load.minus_assign_add_one (hnames host hmem)
  have hselect : l₁.selectHost (t.sgDist.hosts k).hosts = some (host, l) := by
    rw [← h, Load.selectHost, Load.selectHost, Load.foldl_touch_of_mem hnames]
  rw [refresh_eq_some (?_ : _ = some (host, l))]
  · simp only [hdist, Function.update_idem]
  · rw [hwithout, hdist, hselect]

end GraphTable

/-- **Re-election.** A refresh of a subgraph that has hosts elects one with the least access load
without the contribution of the subgraph. It changes no other counters than those of the old and the
new host, and a second refresh changes nothing. -/
theorem refresh_reelects {t : GraphTable} {k : UInt32} (hhosts : ∃ host, host ∈ t.sgDist.hosts k)
    (hpos : ∀ host, t.partition k = some host → t.aLoad.sgnum host ≠ 0)
    (hpart : t.partition k ≠ some unknown) (hunknown : unknown ∉ t.sgDist.hosts k) :
    ∃ host t', t.refresh k = some t' ∧ t.Reelected k host t' ∧ t'.refresh k = some t' := by
  have hne : (t.withoutOwn k).selectHost (t.sgDist.hosts k).hosts ≠ none := by
    rw [Ne, Load.selectHost_eq_none_iff, HostSet.hosts_eq_nil_iff, not_forall_not]
    exact hhosts
  obtain ⟨⟨host, l⟩, hselect⟩ := Option.ne_none_iff_exists'.mp hne
  obtain ⟨hmem, hsgnum, -⟩ := Load.selectHost_spec hselect
  have hcount := GraphTable.sgnum_withoutOwn hpart hpos
  refine ⟨host, _, GraphTable.refresh_eq_some hselect,
    ⟨hmem, fun host' hmem' => ?_, rfl, fun host' => ?_, rfl, ?_, rfl⟩,
    GraphTable.refresh_refresh hunknown hselect (GraphTable.refresh_eq_some hselect)⟩
  · rw [← hcount, ← hcount]
    exact Load.selectHost_least hselect hmem'
  · dsimp only
    rw [hsgnum, ← hcount]
    by_cases hhost : host' = host
    · rw [hhost, Function.update_self, if_pos rfl, UInt32.toNat_add]
      rfl
    · rw [Function.update_of_ne hhost, if_neg hhost, Nat.add_zero]
      exact (Nat.mod_eq_of_lt (UInt32.toNat_lt _)).symm
  · exact funext fun _ => SGDist.hosts_getHosts_snd

/-- A subgraph that is read from `b`, and has been moved to `a` and `c`. -/
private def movedTable : GraphTable :=
  { GraphTable.new ["a", "b", "c"] 1 with
    sgDist := (SGDist.insert (fun _ => none) 0 "a").insert 0 "c"
    aLoad := ((Load.new ["a", "b", "c"]).plus "a" 1).plus "b" 1
    partition := Function.update (fun _ => none) 0 (some "b") }

theorem refresh_reelects_small : ∃ host t', movedTable.refresh 0 = some t' ∧
    movedTable.Reelected 0 host t' ∧ t'.refresh 0 = some t' := by
  refine refresh_reelects ⟨"a", by decide +kernel⟩ (fun host h => ?_) (by decide +kernel)
    (by decide +kernel)
  obtain rfl : "b" = host := Option.some.inj h
  decide +kernel

/-- A host that is called `UNKNOWN` gets the subgraph again with every refresh, and the greatest
counter of 32 bits does not go up. -/
theorem refresh_reelects_false_of_unknown :
    (∃ t' t'', GraphTable.refresh { GraphTable.new ["UNKNOWN"] 1 with
        sgDist := SGDist.insert (fun _ => none) 0 "UNKNOWN" } 0 = some t' ∧
      t'.refresh 0 = some t'' ∧ t'.aLoad.sgnum "UNKNOWN" = 1 ∧ t''.aLoad.sgnum "UNKNOWN" = 2) ∧
    ∃ t', GraphTable.refresh { GraphTable.new ["a"] 1 with
        sgDist := SGDist.insert (fun _ => none) 0 "a"
        aLoad := (Load.new ["a"]).plus "a" 4294967295 } 0 = some t' ∧
      (t'.aLoad.sgnum "a").toNat = 0 :=
  ⟨⟨_, _, rfl, rfl, by decide +kernel, by decide +kernel⟩, _, rfl, by decide +kernel⟩

end Nynn
