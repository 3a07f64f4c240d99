import Nynn.Library.Loads
import Nynn.Placement.TableCalls

/-!
# The access load

The counter of a host in the access load follows the number of subgraphs that are read from it. A
refresh subtracts one for the old host of the subgraph and adds one for the new one. A recycle on
the host that a subgraph is read from subtracts once more, and a destroy of a subgraph without hosts
subtracts for the name `UNKNOWN`.

Source: `nynn_mm_graph_table.h`.

## Main definitions

* `Nynn.GraphTable.AccessSafe`: the calls that do neither, with room for one more subgraph.
* `Nynn.GraphTable.NamedIn`: the names in a table.
* `Nynn.GraphTable.AccessCounts`: the counters show the numbers of subgraphs.

## Main results

* `Nynn.GraphTable.AccessCounts.refresh`: a refresh keeps the counters.
* `Nynn.accessLoad_counts`: in every run of safe calls the counters are right.
-/

namespace Nynn

open Transition Loads

namespace GraphTable

variable {heap : Heap} {hosts : List String} {t t' : GraphTable} {k : UInt32} {host : String}

/-- The call keeps the access load right: it recycles no host that the subgraph is read from,
destroys no subgraph without hosts, reports no host with the name `UNKNOWN`, and leaves for every
host some subgraph, besides its own ones, that is not read from the host. -/
def AccessSafe (t : GraphTable) : TableCall → Prop
  | .create sgkey => ∀ host, host ≠ unknown → ∃ k, k ≠ sgkey ∧ t.getHost k ≠ host
  | .destroy sgkey => t.getHost sgkey ≠ unknown
  | .recycle sgkey host => host ≠ t.getHost sgkey
  | .restore sgkey _ => ∀ host, host ≠ unknown → ∃ k, k ≠ sgkey ∧ t.getHost k ≠ host
  | .setAllSgkeys host sgkeys =>
    host ≠ unknown ∧ ∀ host, host ≠ unknown → ∃ k, k ∉ sgkeys ∧ t.getHost k ≠ host
  | _ => True

/-! ### Names -/

/-- All names in the table are in `N`. -/
structure NamedIn (N : Set String) (t : GraphTable) : Prop where
  sLoad : ∀ name, name ∈ t.sLoad.hosts → name ∈ N
  aLoad : ∀ name, name ∈ t.aLoad.hosts → name ∈ N
  dist : ∀ k name, name ∈ t.sgDist.hosts k → name ∈ N
  corrupted : ∀ k name, name ∈ t.corruptedSgDist.hosts k → name ∈ N
  partition : ∀ k name, t.partition k = some name → name ∈ N

variable {N : Set String}

theorem namedIn_new {replica : UInt32} (h : ∀ host ∈ hosts, host ∈ N) :
    (new hosts replica).NamedIn N where
  sLoad name hname := h name ((Load.new_spec.1 name).mp hname)
  aLoad name hname := h name ((Load.new_spec.1 name).mp hname)
  dist _ _ hname := absurd hname List.not_mem_nil
  corrupted _ _ hname := absurd hname List.not_mem_nil
  partition _ _ hname := nomatch hname

theorem getHost_of_partition_eq (h : t.partition k = some host) : t.getHost k = host := by
  rw [getHost, Partition.get, h, Option.getD_some]

theorem partition_of_getHost_ne (h : t.getHost k ≠ unknown) :
    t.partition k = some (t.getHost k) := by
  cases hp : t.partition k with
  | some host => rw [getHost_of_partition_eq hp]
  | none => exact absurd (by rw [getHost, Partition.get, hp, Option.getD_none]) h

theorem NamedIn.refresh (ht : t.NamedIn N) (h : t.refresh k = some t') : t'.NamedIn N := by
  obtain ⟨host, hr⟩ := refresh_spec h
  obtain ⟨l, hl, -, hnames⟩ := hr.aLoad
  refine ⟨hr.sLoad ▸ ht.sLoad, fun name hname => ?_, hr.dist ▸ ht.dist,
    hr.corrupted ▸ ht.corrupted, fun k' name hname => ?_⟩
  · rcases (hnames name).mp hname with hmem | hmem
    · exact ht.dist k name hmem
    · rw [← hl] at hmem
      split_ifs at hmem with hold
      · rcases Load.mem_hosts_assign.mp hmem with rfl | hmem
        · exact ht.partition k _ (partition_of_getHost_ne hold)
        · exact ht.aLoad name hmem
      · exact ht.aLoad name hmem
  · rw [hr.partition] at hname
    by_cases hk : k' = k
    · rw [hk, Function.update_self] at hname
      exact Option.some.inj hname ▸ ht.dist k host hr.mem
    · rw [Function.update_of_ne hk] at hname
      exact ht.partition k' name hname

/-! ### Counters -/

/-- The counter of every host shows how many subgraphs are read from it. -/
def AccessCounts (t : GraphTable) : Prop :=
  ∀ host, Counts (t.aLoad.sgnum host) fun k => t.partition k = some host

/-- One subgraph less for its old host. -/
theorem AccessCounts.minus (ht : t.AccessCounts) (hk : t.partition k = some host) (host' : String) :
    Counts ((t.aLoad.minus host 1).sgnum host')
      fun k' => k' ≠ k ∧ t.partition k' = some host' := by
  rw [Load.minus, Load.sgnum_assign]
  by_cases hhost : host' = host
  · subst hhost
    rw [Function.update_self]
    exact (ht host').erase hk fun _ => Iff.rfl
  · rw [Function.update_of_ne hhost]
    refine (ht host').congr fun k' => ⟨And.right, fun hk' => ⟨?_, hk'⟩⟩
    rintro rfl
    exact hhost (Option.some.inj (hk'.symm.trans hk))

/-- **A refresh keeps the counters.** -/
theorem AccessCounts.refresh (ht : t.AccessCounts) (hk : t.partition k ≠ some unknown)
    (h : t.refresh k = some t') : t'.AccessCounts := by
  obtain ⟨host, hr⟩ := refresh_spec h
  obtain ⟨l, hl, hsgnum, -⟩ := hr.aLoad
  have hless : ∀ host', Counts (l.sgnum host') fun k' => k' ≠ k ∧ t.partition k' = some host' := by
    intro host'
    rw [← hl]
    split_ifs with hold
    · exact ht.minus (partition_of_getHost_ne hold) host'
    · refine (ht host').congr fun k' => ⟨And.right, fun hk' => ⟨?_, hk'⟩⟩
      rintro rfl
      rw [getHost_of_partition_eq hk', not_not] at hold
      exact hk (hold ▸ hk')
  intro host'
  rw [hsgnum, hr.partition]
  by_cases hhost : host' = host
  · subst hhost
    rw [Function.update_self]
    refine (hless host').insert (k := k) (fun hand => hand.1 rfl) fun k' => ?_
    by_cases hk' : k' = k
    · simp [hk']
    · simp [hk']
  · rw [Function.update_of_ne hhost]
    refine (hless host').congr fun k' => ?_
    by_cases hk' : k' = k
    · simp [hk', Ne.symm hhost]
    · simp [hk']

/-- One subgraph less for its old host, which then has no host. -/
theorem AccessCounts.destroy (ht : t.AccessCounts) (hk : t.getHost k ≠ unknown) :
    (t.destroy k).AccessCounts := by
  intro host
  refine (ht.minus (partition_of_getHost_ne hk) host).congr fun k' => ?_
  by_cases hk' : k' = k
  · simp [GraphTable.destroy, hk']
  · simp [GraphTable.destroy, hk']

/-! ### Runs -/

/-- The names in the table and the counters are right, and no host has every subgraph. -/
structure AccessInvariant (N : Set String) (t : GraphTable) : Prop where
  named : t.NamedIn N
  counts : t.AccessCounts
  room : ∀ host, host ≠ unknown → ∃ k, t.partition k ≠ some host

/-- A refresh after a change of the distribution. -/
theorem AccessInvariant.refresh {t₁ : GraphTable} (hN : unknown ∉ N)
    (h : t₁.refresh k = some t') (hnamed : t₁.NamedIn N) (hcounts : t₁.AccessCounts)
    (hroom : ∀ host, host ≠ unknown → ∃ k', k' ≠ k ∧ t₁.getHost k' ≠ host) :
    t'.AccessInvariant N := by
  refine ⟨hnamed.refresh h, hcounts.refresh (fun hk => hN (hnamed.partition k _ hk)) h, ?_⟩
  intro host hhost
  obtain ⟨k', hne, hk'⟩ := hroom host hhost
  refine ⟨k', ?_⟩
  rw [partition_refresh_of_ne h hne]
  exact mt getHost_of_partition_eq hk'

private theorem AccessInvariant.setAllSgkeys {sgkeys : List UInt32} (hN : unknown ∉ N)
    (ht : t.AccessInvariant N) (hhost : host ∈ N)
    (hroom : ∀ host, host ≠ unknown → ∃ k, k ∉ sgkeys ∧ t.getHost k ≠ host)
    (h : t.setAllSgkeys host sgkeys = some t') : t'.AccessInvariant N := by
  let t₁ : GraphTable := { t with sLoad := t.sLoad.plus host (.ofNat sgkeys.length) }
  have hnamed : t₁.NamedIn N := ⟨fun name hname => (Load.mem_hosts_assign.mp hname).elim
    (fun e => e ▸ hhost) (ht.named.sLoad name), ht.named.aLoad, ht.named.dist,
    ht.named.corrupted, ht.named.partition⟩
  let I : GraphTable → Prop := fun t' => t'.NamedIn N ∧ t'.AccessCounts ∧
    ∀ k, k ∉ sgkeys → t'.partition k = t.partition k
  have hstep : ∀ t, ∀ k ∈ sgkeys, ∀ t', I t → t.report host k = some t' → I t' := by
    rintro t k hk t' ⟨hnamed, hcounts, hpart⟩ hreport
    rw [report] at hreport
    have hnamed' : NamedIn N { t with sgDist := t.sgDist.insert k host } := by
      refine ⟨hnamed.sLoad, hnamed.aLoad, fun k' name hname => ?_, hnamed.corrupted,
        hnamed.partition⟩
      rcases SGDist.mem_hosts_insert.mp hname with ⟨-, rfl⟩ | hname
      · exact hhost
      · exact hnamed.dist k' name hname
    have hcounts' : AccessCounts { t with sgDist := t.sgDist.insert k host } := hcounts
    refine ⟨hnamed'.refresh hreport, hcounts'.refresh
      (fun hunknown => hN (hnamed.partition k _ hunknown)) hreport, fun k' hmem => ?_⟩
    rw [partition_refresh_of_ne hreport (ne_of_mem_of_not_mem hk hmem).symm]
    exact hpart k' hmem
  obtain ⟨t'', hfold, hnamed, hcounts, hpart⟩ := foldlM_report (I := I) host sgkeys (t := t₁)
    ⟨hnamed, ht.counts, fun _ _ => rfl⟩ hstep
  rw [setAllSgkeys_eq, hfold] at h
  obtain rfl := Option.some.inj h
  refine ⟨hnamed, hcounts, fun host' hne => ?_⟩
  obtain ⟨k, hmem, hk⟩ := hroom host' hne
  refine ⟨k, ?_⟩
  rw [hpart k hmem]
  exact mt getHost_of_partition_eq hk

/-- Every safe call keeps the names and the counters right. -/
theorem AccessInvariant.step {a : TableCall} (hN : unknown ∉ N) (ht : t.AccessInvariant N)
    (hcons : t.Consistent hosts) (h : TableStep heap hosts t a t') (hsafe : t.AccessSafe a)
    (hreport : ∀ host sgkeys, a = .setAllSgkeys host sgkeys → host ∈ N) :
    t'.AccessInvariant N := by
  obtain ⟨ha, h⟩ := h
  have hnamed := ht.named
  cases a with
  | create k =>
    obtain ⟨chosen, l, hl, hcreate⟩ := create_eq heap hcons.conf ha
    refine refresh hN (hcreate.symm.trans h) ?_ ht.counts hsafe
    refine ⟨fun name hname => hnamed.sLoad name ((hl.hosts name).mp hname), hnamed.aLoad,
      fun k' name hname => ?_, hnamed.corrupted, hnamed.partition⟩
    rcases (SGDist.mem_hosts_foldl_insert chosen).mp hname with ⟨-, hmem⟩ | hname
    · exact hnamed.sLoad name (hl.subset name hmem)
    · exact hnamed.dist k' name hname
  | destroy k =>
    obtain rfl := Option.some.inj h
    have hk := partition_of_getHost_ne hsafe
    refine ⟨⟨fun name hname => ?_, fun name hname => ?_, fun k' name hname => ?_,
      hnamed.corrupted, fun k' name hname => ?_⟩, ht.counts.destroy hsafe,
      fun host _ => ⟨k, ?_⟩⟩
    · rcases ((Load.foldl_assign_spec (· - 1) (t.sgDist.hosts k).nodup).2 name).mp hname with
        hmem | hname
      · exact hnamed.dist k name hmem
      · exact hnamed.sLoad name hname
    · rcases Load.mem_hosts_assign.mp hname with rfl | hname
      · exact hnamed.partition k _ hk
      · exact hnamed.aLoad name hname
    · exact hnamed.dist k' name (mem_dist_destroy.mp hname).2
    · dsimp only [GraphTable.destroy] at hname
      rw [Function.update_apply] at hname
      split_ifs at hname
      exact hnamed.partition k' name hname
    · dsimp only [GraphTable.destroy]
      rw [Function.update_self]
      nofun
  | getHosts k =>
    obtain rfl := Option.some.inj h
    refine ⟨⟨hnamed.sLoad, hnamed.aLoad, fun k' name hname => ?_, hnamed.corrupted,
      hnamed.partition⟩, ht.counts, ht.room⟩
    exact hnamed.dist k' name (by simpa [GraphTable.getHosts] using hname)
  | getHost k => exact Option.some.inj h ▸ ht
  | recycle k host =>
    have hmem : host ∈ t.sgDist.hosts k := ha
    have hne : t.partition k ≠ some host := fun hk => hsafe (getHost_of_partition_eq hk).symm
    rw [call, hcons.located.recycle_eq hmem, if_neg hne] at h
    obtain rfl := Option.some.inj h
    refine ⟨⟨fun name hname => ?_, hnamed.aLoad, fun k' name hname => ?_,
      fun k' name hname => ?_, hnamed.partition⟩, ht.counts, ht.room⟩
    · rcases Load.mem_hosts_assign.mp hname with rfl | hname
      · exact hnamed.dist k name hmem
      · exact hnamed.sLoad name hname
    · exact hnamed.dist k' name (SGDist.mem_hosts_eraseHost.mp hname).2
    · rcases SGDist.mem_hosts_insert.mp hname with ⟨-, rfl⟩ | hname
      · exact hnamed.dist k name hmem
      · exact hnamed.corrupted k' name hname
  | restore k host =>
    have hmem : host ∈ N := hnamed.corrupted k host ha
    obtain ⟨l, -, hnames, hrestore⟩ := restore_eq t k host
    refine refresh hN (hrestore.symm.trans h) ?_ ht.counts hsafe
    refine ⟨fun name hname => ?_, hnamed.aLoad, fun k' name hname => ?_,
      fun k' name hname => ?_, hnamed.partition⟩
    · rcases (hnames name).mp hname with rfl | hname
      · exact hmem
      · exact hnamed.sLoad name hname
    · rcases SGDist.mem_hosts_insert.mp hname with ⟨-, rfl⟩ | hname
      · exact hmem
      · exact hnamed.dist k' name hname
    · exact hnamed.corrupted k' name (SGDist.mem_hosts_eraseHost.mp hname).2
  | setAllSgkeys host sgkeys =>
    exact ht.setAllSgkeys hN (hreport host sgkeys rfl) hsafe.2 h

end GraphTable

/-- A safe step. -/
def AccessStep (heap : Heap) (hosts : List String) (t : GraphTable) (a : TableCall)
    (t' : GraphTable) : Prop :=
  TableStep heap hosts t a t' ∧ t.AccessSafe a

/-- **The access load counts.** In every run of safe calls the counter of a host is the number of
subgraphs that are read from it, only hosts have counters, and the host of a subgraph has a counter
to subtract from. -/
theorem accessLoad_counts {heap : Heap} {hosts : List String} {replica : UInt32}
    {as : List TableCall} {t : GraphTable} (hunknown : unknown ∉ hosts)
    (h : Steps (AccessStep heap hosts) (.new hosts replica) as t) :
    (∀ host, host ≠ unknown →
      (t.aLoad.sgnum host).toNat = {sgkey | t.getHost sgkey = host}.ncard) ∧
    (∀ name, name ∈ t.aLoad.hosts →
      name ∈ hosts ∨ ∃ sgkeys, .setAllSgkeys name sgkeys ∈ as) ∧
    ∀ sgkey, t.getHost sgkey ≠ unknown → t.aLoad.sgnum (t.getHost sgkey) ≠ 0 := by
  let N : Set String := {name | name ∈ hosts ∨ ∃ sgkeys, .setAllSgkeys name sgkeys ∈ as}
  have hN : unknown ∉ N := by
    rintro (hmem | ⟨sgkeys, hmem⟩)
    · exact hunknown hmem
    · obtain ⟨_, _, -, hsafe⟩ := h.exists_step_of_mem hmem
      exact hsafe.1 rfl
  have hzero : (GraphTable.new hosts replica).AccessCounts := fun host => by
    rw [GraphTable.new, Load.new_spec.2]
    exact .zero fun _ => nofun
  obtain ⟨-, ht⟩ := h.invariant_of_mem (I := fun t => t.Consistent hosts ∧ t.AccessInvariant N)
    (fun t a ha t' ⟨hcons, ht⟩ hstep => ⟨hcons.step hstep.1, ht.step hN hcons hstep.1 hstep.2
      fun host sgkeys e => Or.inr ⟨sgkeys, e ▸ ha⟩⟩)
    ⟨GraphTable.consistent_new hosts replica, GraphTable.namedIn_new fun host hmem => Or.inl hmem,
      hzero, fun _ _ => ⟨0, nofun⟩⟩
  have hcounts : ∀ host, host ≠ unknown →
      (t.aLoad.sgnum host).toNat = {sgkey | t.getHost sgkey = host}.ncard := by
    intro host hne
    obtain ⟨k, hk⟩ := ht.room host hne
    rw [(ht.counts host).toNat_eq hk]
    refine number_congr fun sgkey => ⟨GraphTable.getHost_of_partition_eq, ?_⟩
    rintro rfl
    exact GraphTable.partition_of_getHost_ne hne
  refine ⟨hcounts, ht.named.aLoad, fun sgkey hne hnil => ?_⟩
  have hpos : 0 < number fun k => t.getHost k = t.getHost sgkey := number_pos (k := sgkey) rfl
  have hcount := hcounts _ hne
  rw [hnil] at hcount
  exact hpos.ne hcount

/-- The table of two hosts after a subgraph is created on both. -/
private theorem create_small :
    ∃ t, TableStep .stable ["a", "b"] (.new ["a", "b"] 2) (.create 0) t ∧
      t.Consistent ["a", "b"] ∧ (∀ k, k ≠ 0 → t.getHost k = unknown) ∧
      t = ((GraphTable.new ["a", "b"] 2).call .stable (.create 0)).getD (.new ["a", "b"] 2) := by
  have h : TableStep .stable ["a", "b"] (.new ["a", "b"] 2) (.create 0) _ :=
    .of_isSome ⟨fun host => List.not_mem_nil, by decide, by decide +kernel⟩ (by decide +kernel)
  have hcons := GraphTable.consistent_new ["a", "b"] 2
  obtain ⟨chosen, l, -, hcreate⟩ := GraphTable.create_eq .stable hcons.conf h.1
  refine ⟨_, h, hcons.step h, fun k hk => ?_, rfl⟩
  rw [GraphTable.getHost, Partition.get,
    GraphTable.partition_refresh_of_ne (hcreate.symm.trans h.2) hk]
  rfl

/-- A subgraph on two hosts that loses the host it is not read from. -/
theorem accessLoad_counts_small :
    ∃ t, Steps (AccessStep .stable ["a", "b"]) (.new ["a", "b"] 2)
      [.create 0, .recycle 0 "b"] t ∧
      (t.aLoad.sgnum "a").toNat = {sgkey | t.getHost sgkey = "a"}.ncard := by
  obtain ⟨t, h₁, -, hothers, ht⟩ := create_small
  have h₂ : TableStep .stable ["a", "b"] t (.recycle 0 "b") _ :=
    .of_isSome (show _ ∈ _ by rw [ht]; decide +kernel) (by rw [ht]; decide +kernel)
  have hsafe₁ : AccessStep .stable ["a", "b"] (.new ["a", "b"] 2) (.create 0) t :=
    ⟨h₁, fun host hne => ⟨1, by decide, hne.symm⟩⟩
  have hsafe₂ : AccessStep .stable ["a", "b"] t (.recycle 0 "b") _ :=
    ⟨h₂, show _ ≠ _ by rw [ht]; decide +kernel⟩
  have h := (Steps.single hsafe₁).snoc hsafe₂
  exact ⟨_, h, (accessLoad_counts (by decide) h).1 "a" (by decide)⟩

/-- A recycle of the host that a subgraph is read from subtracts twice. -/
theorem accessLoad_counts_false_of_recycle :
    ¬∀ as t, Steps (TableStep .stable ["a", "b"]) (.new ["a", "b"] 2) as t →
      ∀ host ∈ ["a", "b"],
        (t.aLoad.sgnum host).toNat = {sgkey | t.getHost sgkey = host}.ncard := by
  intro hall
  obtain ⟨t, h₁, hcons, hothers, ht⟩ := create_small
  have hmem : "a" ∈ t.sgDist.hosts 0 := by rw [ht]; decide +kernel
  obtain ⟨t', h₂, hload⟩ : ∃ t', TableStep .stable ["a", "b"] t (.recycle 0 "a") t' ∧
      t'.aLoad.sgnum "a" = 4294967295 :=
    ⟨_, .of_isSome hmem (by rw [ht]; decide +kernel), by rw [ht]; decide +kernel⟩
  have hothers' : ∀ k, t'.getHost k = "a" → k ∈ [0] := by
    intro k hk
    by_contra hne
    have hpart : t'.partition k = t.partition k := by
      have hrun := h₂.2
      rw [GraphTable.call, hcons.located.recycle_eq hmem] at hrun
      split_ifs at hrun
      · have hsame := GraphTable.partition_refresh_of_ne hrun (mt List.mem_singleton.mpr hne)
        exact hsame
      · rw [← Option.some.inj hrun]
    rw [GraphTable.getHost, Partition.get, hpart] at hk
    exact absurd ((hothers k (mt List.mem_singleton.mpr hne)).symm.trans hk) (by decide)
  have hle : {k | t'.getHost k = "a"}.ncard ≤ 1 := number_le_of_subset [0] hothers'
  have hcount := hall _ _ ((Steps.single h₁).snoc h₂) "a" List.mem_cons_self
  rw [hload] at hcount
  exact absurd (hcount.trans_le hle) (by decide)

end Nynn
