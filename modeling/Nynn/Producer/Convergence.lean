import Nynn.Library.Transition
import Nynn.Producer.Replication

/-!
# Concurrent updates of the replicas

Each call of the producer goes through the hosts one after the other. The guard that locks the
vertex lives inside the loop over the hosts: it is released at one host before it is taken at the
next one, and the locks of different vertices have nothing to do with each other. So two calls can
reach two hosts in different orders, and each host numbers the new blocks in its own order.

The replicas converge when every host takes the calls in the order of the hosts before it.

Source: `ProducerDaemon.cpp`.

## Main definitions

* `Nynn.Cluster`: the replicas of a subgraph, the calls in progress, and what each host has done.
* `Nynn.ClusterStep`: a call begins, or goes through at its next host.
* `Nynn.Cluster.InOrder`: a host takes the call that the hosts before it took at this place.
* `Nynn.Cluster.Converged`: the replicas have the same lists and the same blocks.

## Main results

* `Nynn.ClusterStep.loop`: the steps of a call are the loop of its handler.
* `Nynn.replicas_converge`: in a run in order, the replicas converge.
* `Nynn.replicas_converge_false_of_overtaking`: two pushes that overtake each other.
-/

namespace Nynn

open Program Transition

variable {c : Config} {M C : Type}

/-! ### Calls in progress -/

/-- A call of the producer: the update, the place of its next host, and the last report. -/
structure UpdateCall (c : Config) where
  op : ListOp c.blockSz
  next : ℕ
  report : Report

/-- What a host has done: the update of the call `id`, and the report of it. -/
structure LogEntry (c : Config) (C : Type) where
  id : C
  op : ListOp c.blockSz
  report : Report

/-- The hosts of a subgraph in the order of `getHosts`, the calls that have begun, and what each
host has done; no code reads this history. -/
structure Cluster (c : Config) (M C : Type) where
  replicas : List (Replica c M)
  calls : C → Option (UpdateCall c)
  log : ℕ → List (LogEntry c C)

/-- A client calls an update, or the next host of a call takes it. -/
inductive ClusterEvent (c : Config) (C : Type)
  | begin (id : C) (op : ListOp c.blockSz)
  | apply (id : C) (disk : CreateOutcome)

/-- The replicas of a subgraph before the first call. -/
def Cluster.start (rs : List (Replica c M)) : Cluster c M C := ⟨rs, fun _ => none, fun _ => []⟩

section Steps

variable [DecidableEq C]

/-- The state after the next host of a call has taken it. -/
def Cluster.take (s : Cluster c M C) (id : C) (call : UpdateCall c) (r' : Replica c M)
    (report : Report) : Cluster c M C :=
  ⟨s.replicas.set call.next r',
    Function.update s.calls id (some ⟨call.op, call.next + 1, report⟩),
    Function.update s.log call.next (s.log call.next ++ [⟨id, call.op, report⟩])⟩

namespace Cluster

variable {s : Cluster c M C} {id : C} {call : UpdateCall c} {r' : Replica c M} {report : Report}

theorem log_take_self :
    (s.take id call r' report).log call.next = s.log call.next ++ [⟨id, call.op, report⟩] :=
  Function.update_self ..

theorem log_take_of_ne {i : ℕ} (hi : i ≠ call.next) :
    (s.take id call r' report).log i = s.log i :=
  Function.update_of_ne hi ..

theorem calls_take_self :
    (s.take id call r' report).calls id = some ⟨call.op, call.next + 1, report⟩ :=
  Function.update_self ..

theorem calls_take_of_ne {id' : C} (hid : id' ≠ id) :
    (s.take id call r' report).calls id' = s.calls id' :=
  Function.update_of_ne hid ..

theorem log_prefix_take (i : ℕ) : s.log i <+: (s.take id call r' report).log i := by
  by_cases hi : i = call.next
  · rw [hi, log_take_self]
    exact List.prefix_append _ _
  · rw [log_take_of_ne hi]

end Cluster

variable [OverflowTable M]

/-- The steps of the producer. At a host, the update is made under the lock of its vertex, in one
step; no host fails. -/
inductive ClusterStep : Cluster c M C → ClusterEvent c C → Cluster c M C → Prop
  | begin {s : Cluster c M C} {id : C} {op : ListOp c.blockSz} (h : s.calls id = none) :
      ClusterStep s (.begin id op) { s with
        calls := Function.update s.calls id
          (some ⟨op, 0, if op.newBlk.isSome then .blkno invalidBlkno else .bool true⟩) }
  | apply {s : Cluster c M C} {id : C} {disk : CreateOutcome} {call : UpdateCall c}
      {r r' : Replica c M} {report : Report} (hcall : s.calls id = some call)
      (hr : s.replicas[call.next]? = some r) (hreach : r.reachable = true)
      (hupd : ProviderHandler.update call.op { r with disk } = (.ok report, r'))
      (hok : report.isFailure = false) :
      ClusterStep s (.apply id disk) (s.take id call r' report)

/-- The host takes the call that each host before it took at this place. -/
def Cluster.InOrder (s : Cluster c M C) : ClusterEvent c C → Prop
  | .begin _ _ => True
  | .apply id _ => ∀ call ∈ s.calls id, ∀ j < call.next,
    (s.log call.next).map LogEntry.id ++ [id] <+: (s.log j).map LogEntry.id

/-- A step in which a host takes the call that the hosts before it took at this place. -/
def OrderedStep (s : Cluster c M C) (e : ClusterEvent c C) (s' : Cluster c M C) : Prop :=
  ClusterStep s e s' ∧ s.InOrder e

end Steps

/-- No call is in flight. -/
def Cluster.Quiescent (s : Cluster c M C) : Prop :=
  ∀ id, ∀ call ∈ s.calls id, call.next = s.replicas.length

/-- **Convergence.** All replicas have the same list for every vertex and the same bytes in every
block, and the number that a call returns is the number that every host gave to its block. -/
structure Cluster.Converged [OverflowTable M] (s : Cluster c M C) : Prop where
  lists : ∀ r ∈ s.replicas, ∀ r' ∈ s.replicas, ∀ fuel v,
    ((readAllBlknos fuel v).run r.storage).1 = ((readAllBlknos fuel v).run r'.storage).1
  blocks : ∀ r ∈ s.replicas, ∀ r' ∈ s.replicas, ∀ v b,
    ((read v b).run r.storage).1 = ((read v b).run r'.storage).1
  reports : ∀ id, ∀ call ∈ s.calls id, ∀ i < s.replicas.length,
    ⟨id, call.op, call.report⟩ ∈ s.log i

/-! ### Logs -/

section Logs

variable [OverflowTable M]

/-- What a host does to its storage when it takes a call, and what it reports. -/
def LogEntry.Applies (s : Storage c M) (e : LogEntry c C) (s' : Storage c M) : Prop :=
  ∃ res, (e.op.run .ok).run s = (.ok res, s') ∧
    ProviderHandler.reply e.op (.ok res) = .ok e.report

theorem LogEntry.Applies.deterministic {s s₁ s₂ : Storage c M} {e : LogEntry c C}
    (h₁ : e.Applies s s₁) (h₂ : e.Applies s s₂) : s₁ = s₂ := by
  obtain ⟨res₁, hrun₁, -⟩ := h₁
  obtain ⟨res₂, hrun₂, -⟩ := h₂
  exact congrArg Prod.snd (hrun₁.symm.trans hrun₂)

theorem LogEntry.replay_eq {s s₁ s₂ : Storage c M} {log : List (LogEntry c C)}
    (h₁ : Steps LogEntry.Applies s log s₁) (h₂ : Steps LogEntry.Applies s log s₂) : s₁ = s₂ := by
  refine Steps.deterministic ?_ h₁ h₂
  exact fun _ _ _ _ h h' => h.deterministic h'

theorem LogEntry.Applies.report_eq {s s₁ s₂ : Storage c M} {id₁ id₂ : C} {op : ListOp c.blockSz}
    {report₁ report₂ : Report} (h₁ : (LogEntry.mk id₁ op report₁).Applies s s₁)
    (h₂ : (LogEntry.mk id₂ op report₂).Applies s s₂) : report₁ = report₂ := by
  obtain ⟨res₁, hrun₁, hreply₁⟩ := h₁
  obtain ⟨res₂, hrun₂, hreply₂⟩ := h₂
  rw [hrun₁, Prod.mk.injEq, Except.ok.injEq] at hrun₂
  rw [← hrun₂.1, hreply₁] at hreply₂
  exact Except.ok.inj hreply₂

/-- A host that does not fail takes the call on any disk. -/
theorem LogEntry.applies_of_update {id : C} {op : ListOp c.blockSz} {r r' : Replica c M}
    {report : Report} {disk : CreateOutcome}
    (h : ProviderHandler.update op { r with disk } = (.ok report, r'))
    (hok : report.isFailure = false) : (LogEntry.mk id op report).Applies r.storage r'.storage := by
  obtain ⟨res, s', -, hrun, -, hreply, rfl⟩ := ProviderHandler.of_update h hok
  exact ⟨res, (ListOp.failsOr_run (g := fun e => e) rfl (Or.inr rfl) op).of_ok hrun, hreply⟩

end Logs

/-! ### Order -/

section Order

variable [OverflowTable M] {s₀ : Storage c M} {s s' : Cluster c M C}

/-- The invariant of a run in order: the storage of a host replays its log, the log is the first
part of the log of each host before it, and it has just the calls that are past the host. -/
private structure Cluster.Ordered (s₀ : Storage c M) (s : Cluster c M C) : Prop where
  replays : ∀ i, ∀ r ∈ s.replicas[i]?, Steps LogEntry.Applies s₀ (s.log i) r.storage
  prefixes : ∀ i, ∀ j ≤ i, s.log i <+: s.log j
  begun : ∀ i, ∀ e ∈ s.log i, ∃ call ∈ s.calls e.id, i < call.next ∧ e.op = call.op
  logged : ∀ id, ∀ call ∈ s.calls id, ∀ i < call.next, ⟨id, call.op, call.report⟩ ∈ s.log i
  nodup : ∀ i, ((s.log i).map LogEntry.id).Nodup

namespace Cluster.Ordered

private theorem start {rs : List (Replica c M)} (hs : ∀ r ∈ rs, r.storage = s₀) :
    (Cluster.start rs : Cluster c M C).Ordered s₀ where
  replays i r hr := by
    rw [hs r (List.mem_of_getElem? hr)]
    exact .nil
  prefixes _ _ _ := List.prefix_rfl
  begun _ _ he := absurd he List.not_mem_nil
  logged _ _ hcall := absurd hcall (Option.not_mem_none _)
  nodup _ := List.nodup_nil

/-- The host takes the call that the hosts before it took, with the report that they gave. -/
private theorem prefix_next (h : s.Ordered s₀) {id : C} {call : UpdateCall c} {r : Replica c M}
    {report : Report} {t : Storage c M} (hcall : s.calls id = some call)
    (hr : s.replicas[call.next]? = some r)
    (happlies : (LogEntry.mk id call.op report).Applies r.storage t) {j : ℕ}
    (hj : j < call.next)
    (horder : (s.log call.next).map LogEntry.id ++ [id] <+: (s.log j).map LogEntry.id) :
    s.log call.next ++ [⟨id, call.op, report⟩] <+: s.log j := by
  obtain ⟨rest, hrest⟩ := h.prefixes call.next j hj.le
  rw [← hrest, List.map_append, List.prefix_append_right_inj] at horder
  cases rest with
  | nil => simp at horder
  | cons e rest =>
    obtain ⟨id', op', report'⟩ := e
    rw [List.map_cons, List.cons_prefix_cons] at horder
    obtain rfl : id = id' := horder.1
    have hmem : ⟨id, op', report'⟩ ∈ s.log j := hrest ▸ by simp
    obtain ⟨call', hcall', -, hop : op' = call'.op⟩ := h.begun j _ hmem
    obtain rfl : call = call' := Option.some.inj (hcall.symm.trans hcall')
    subst hop
    have hlt : j < s.replicas.length :=
      hj.trans (List.getElem?_eq_some_iff.mp hr).1
    have hreplay := h.replays j _ (List.getElem?_eq_getElem hlt)
    rw [← hrest, List.append_cons] at hreplay
    obtain ⟨t₁, hreplay, -⟩ := hreplay.of_append
    obtain ⟨t₂, hreplay, happlies'⟩ := hreplay.of_concat
    obtain rfl := LogEntry.replay_eq hreplay (h.replays call.next r hr)
    rw [happlies.report_eq happlies']
    exact ⟨rest, by rw [List.append_assoc, ← hrest]; rfl⟩

variable [DecidableEq C] {id : C} {call : UpdateCall c} {r' : Replica c M} {report : Report}

/-- What a host has done is a call that is past the host, also after the step. -/
private theorem begun_take (h : s.Ordered s₀) (hcall : s.calls id = some call) {i : ℕ}
    {e : LogEntry c C} (he : e ∈ s.log i) :
    ∃ call' ∈ (s.take id call r' report).calls e.id, i < call'.next ∧ e.op = call'.op := by
  obtain ⟨call', hcall', hlt, hop⟩ := h.begun i e he
  by_cases hid : e.id = id
  · rw [hid] at hcall' ⊢
    obtain rfl : call = call' := Option.some.inj (hcall.symm.trans hcall')
    exact ⟨_, calls_take_self, hlt.trans (Nat.lt_succ_self _), hop⟩
  · exact ⟨call', (calls_take_of_ne hid).trans hcall', hlt, hop⟩

omit [DecidableEq C] in
/-- A host that takes a call has not taken it before. -/
private theorem notMem_log (h : s.Ordered s₀) (hcall : s.calls id = some call) :
    id ∉ (s.log call.next).map LogEntry.id := by
  intro hmem
  obtain ⟨e, he, rfl⟩ := List.mem_map.mp hmem
  obtain ⟨call', hcall', hlt, -⟩ := h.begun _ e he
  obtain rfl : call = call' := Option.some.inj (hcall.symm.trans hcall')
  exact hlt.false

/-- A host takes the call that the hosts before it took at this place. -/
private theorem take (h : s.Ordered s₀) {r : Replica c M} {disk : CreateOutcome}
    (hcall : s.calls id = some call) (hr : s.replicas[call.next]? = some r)
    (happlies : (LogEntry.mk id call.op report).Applies r.storage r'.storage)
    (horder : s.InOrder (.apply id disk)) : (s.take id call r' report).Ordered s₀ := by
  have hnext : ∀ j < call.next, s.log call.next ++ [⟨id, call.op, report⟩] <+: s.log j :=
    fun j hj => h.prefix_next hcall hr happlies hj (horder call hcall j hj)
  refine ⟨fun i q hq => ?_, fun i j hij => ?_, fun i e he => ?_, fun id' call' hcall' i hi => ?_,
    fun i => ?_⟩
  · by_cases hi : i = call.next
    · subst hi
      obtain rfl : r' = q := by
        rw [Cluster.take, List.getElem?_set_self (List.getElem?_eq_some_iff.mp hr).1] at hq
        exact Option.some.inj hq
      rw [log_take_self]
      exact (h.replays call.next r hr).snoc happlies
    · rw [Cluster.take, List.getElem?_set_ne (Ne.symm hi)] at hq
      rw [log_take_of_ne hi]
      exact h.replays i q hq
  · by_cases hi : i = call.next
    · subst hi
      rcases hij.lt_or_eq with hlt | rfl
      · rw [log_take_self]
        exact (hnext j hlt).trans (log_prefix_take j)
      · exact List.prefix_rfl
    · rw [log_take_of_ne hi]
      exact (h.prefixes i j hij).trans (log_prefix_take j)
  · by_cases hi : i = call.next
    · subst hi
      rw [log_take_self, List.mem_append, List.mem_singleton] at he
      rcases he with he | rfl
      · exact h.begun_take hcall he
      · exact ⟨_, calls_take_self, Nat.lt_succ_self _, rfl⟩
    · rw [log_take_of_ne hi] at he
      exact h.begun_take hcall he
  · by_cases hid : id' = id
    · subst hid
      rw [calls_take_self, Option.mem_def, Option.some.injEq] at hcall'
      subst hcall'
      have hlast : ⟨id', call.op, report⟩ ∈ s.log call.next ++ [⟨id', call.op, report⟩] :=
        List.mem_append_right _ List.mem_cons_self
      rcases (Nat.lt_succ_iff.mp hi).lt_or_eq with hlt | rfl
      · exact (log_prefix_take i).subset ((hnext i hlt).subset hlast)
      · rwa [log_take_self]
    · rw [calls_take_of_ne hid] at hcall'
      exact (log_prefix_take i).subset (h.logged id' call' hcall' i hi)
  · by_cases hi : i = call.next
    · subst hi
      rw [log_take_self, List.map_append]
      refine List.Nodup.append (h.nodup _) (List.nodup_singleton _) ?_
      rw [List.map_singleton, List.disjoint_singleton]
      exact h.notMem_log hcall
    · rw [log_take_of_ne hi]
      exact h.nodup i

/-- A call begins. -/
private theorem begin (h : s.Ordered s₀) {op : ListOp c.blockSz} (hid : s.calls id = none) :
    Cluster.Ordered s₀ { s with calls := Function.update s.calls id (some ⟨op, 0, report⟩) } where
  replays := h.replays
  prefixes := h.prefixes
  begun i e he := by
    obtain ⟨call, hcall, hlt⟩ := h.begun i e he
    have hne : e.id ≠ id := by
      rintro hne
      rw [hne, hid] at hcall
      cases hcall
    exact ⟨call, (Function.update_of_ne hne ..).trans hcall, hlt⟩
  logged id' call hcall i hi := by
    by_cases hne : id' = id
    · simp only [hne, Function.update_self, Option.mem_def, Option.some.injEq] at hcall
      subst hcall
      exact absurd hi (Nat.not_lt_zero i)
    · simp only [Function.update_of_ne hne] at hcall
      exact h.logged id' call hcall i hi
  nodup := h.nodup

/-- A step in order. -/
private theorem step (h : s.Ordered s₀) {e : ClusterEvent c C} (hstep : OrderedStep s e s') :
    s'.Ordered s₀ := by
  obtain ⟨hstep, horder⟩ := hstep
  cases hstep with
  | begin hid => exact h.begin hid
  | apply hcall hr hreach hupd hok =>
    exact h.take hcall hr (LogEntry.applies_of_update hupd hok) horder

omit [DecidableEq C] in
/-- When no call is in flight, every host has done the same. -/
private theorem log_eq (h : s.Ordered s₀) (hquiet : s.Quiescent) {i j : ℕ} (hij : j ≤ i)
    (hi : i < s.replicas.length) : s.log i = s.log j := by
  obtain ⟨rest, hrest⟩ := h.prefixes i j hij
  cases rest with
  | nil => rw [← hrest, List.append_nil]
  | cons e rest =>
    have hmem : e ∈ s.log j := hrest ▸ by simp
    obtain ⟨call, hcall, -, -⟩ := h.begun j e hmem
    have hdone := h.logged e.id call hcall i (hquiet e.id call hcall ▸ hi)
    have hnodup := h.nodup j
    rw [← hrest, List.map_append, List.map_cons, List.nodup_append] at hnodup
    exact absurd rfl (hnodup.2.2 _ (List.mem_map_of_mem hdone) e.id List.mem_cons_self)

omit [DecidableEq C] in
/-- When no call is in flight, the storages are equal. -/
private theorem storage_eq (h : s.Ordered s₀) (hquiet : s.Quiescent) {r q : Replica c M}
    (hr : r ∈ s.replicas) (hq : q ∈ s.replicas) : r.storage = q.storage := by
  obtain ⟨i, hi⟩ := List.mem_iff_getElem?.mp hr
  obtain ⟨j, hj⟩ := List.mem_iff_getElem?.mp hq
  have hlog : s.log i = s.log j := by
    rcases le_total j i with hji | hij
    · exact h.log_eq hquiet hji (List.getElem?_eq_some_iff.mp hi).1
    · exact (h.log_eq hquiet hij (List.getElem?_eq_some_iff.mp hj).1).symm
  exact LogEntry.replay_eq (h.replays i r hi) (hlog ▸ h.replays j q hj)

end Cluster.Ordered

end Order

/-! ### A call that is alone -/

section Alone

variable [OverflowTable M] [DecidableEq C] {s : Cluster c M C} {id : C} {call : UpdateCall c}
  {report : Report} {done rest rest' : List (Replica c M)}

/-- The rest of a call: the loop of its handler over the hosts that are left. -/
private theorem ClusterStep.loop_rest (hcall : s.calls id = some call)
    (hrs : s.replicas = done ++ rest) (hnext : call.next = done.length)
    (h : ProducerHandler.loop call.op call.report rest = (.ok report, rest'))
    (hok : report.isFailure = false) :
    ∃ s', Steps ClusterStep s (rest.map fun r => .apply id r.disk) s' ∧
      s'.replicas = done ++ rest' ∧
      s'.calls id = some ⟨call.op, s.replicas.length, report⟩ := by
  induction rest generalizing s call done rest' with
  | nil =>
    rw [ProducerHandler.loop, Prod.mk.injEq, Except.ok.injEq] at h
    obtain ⟨rfl, rfl⟩ := h
    refine ⟨s, .nil, hrs, ?_⟩
    rw [hcall, hrs, List.append_nil, ← hnext]
  | cons r rest ih =>
    rw [ProducerHandler.loop] at h
    by_cases hreach : r.reachable = true
    · rw [if_pos hreach] at h
      rcases hupd : ProviderHandler.update call.op r with ⟨e | reply, r'⟩
      · rw [hupd] at h
        cases h
      · simp only [hupd] at h
        by_cases hfail : reply.isFailure = true
        · rw [if_pos hfail, Prod.mk.injEq, Except.ok.injEq] at h
          rw [h.1, hok] at hfail
          cases hfail
        · rw [if_neg hfail] at h
          rcases hloop : ProducerHandler.loop call.op reply rest with ⟨res, rest₁⟩
          rw [hloop, Prod.mk.injEq] at h
          obtain ⟨rfl, rfl⟩ := h
          have hr : s.replicas[call.next]? = some r := by
            rw [hrs, hnext, List.getElem?_append_right le_rfl, Nat.sub_self]
            rfl
          obtain ⟨s₁, hstep, hrs₁, hcall₁⟩ : ∃ s₁, ClusterStep s (.apply id r.disk) s₁ ∧
              s₁.replicas = done ++ [r'] ++ rest ∧
              s₁.calls id = some ⟨call.op, call.next + 1, reply⟩ := by
            refine ⟨_, .apply hcall hr hreach hupd (Bool.eq_false_iff.mpr hfail), ?_,
              Function.update_self ..⟩
            rw [Cluster.take, hrs, hnext, List.set_append_right _ _ le_rfl, Nat.sub_self,
              List.append_assoc]
            rfl
          have hlen : call.next + 1 = (done ++ [r']).length := by
            rw [List.length_append, hnext]
            rfl
          obtain ⟨s', hsteps, hrs', hcall'⟩ := ih hcall₁ hrs₁ hlen hloop
          refine ⟨s', .cons hstep hsteps, by rw [hrs', List.append_assoc]; rfl, ?_⟩
          have hlength : s₁.replicas.length = s.replicas.length := by simp [hrs₁, hrs]
          rw [hcall', hlength]
    · rw [if_neg hreach, Prod.mk.injEq, Except.ok.injEq] at h
      rw [← h.1] at hok
      cases hok

/-- **A call that is alone.** Its steps are the loop of its handler. -/
theorem ClusterStep.loop {op : ListOp c.blockSz} {rs' : List (Replica c M)}
    (hid : s.calls id = none) (h : ProducerHandler.update op s.replicas = (.ok report, rs'))
    (hok : report.isFailure = false) :
    ∃ s', Steps ClusterStep s (.begin id op :: s.replicas.map fun r => .apply id r.disk) s' ∧
      s'.replicas = rs' ∧ s'.calls id = some ⟨op, s.replicas.length, report⟩ := by
  obtain ⟨s₁, hbegin, hrs₁, hcall₁⟩ : ∃ s₁, ClusterStep s (.begin id op) s₁ ∧
      s₁.replicas = [] ++ s.replicas ∧ s₁.calls id = some ⟨op, 0, _⟩ :=
    ⟨_, .begin hid, rfl, Function.update_self ..⟩
  obtain ⟨s', hsteps, hrs', hcall⟩ := ClusterStep.loop_rest hcall₁ hrs₁ rfl h hok
  refine ⟨s', .cons hbegin hsteps, hrs', ?_⟩
  rw [hcall, hrs₁, List.nil_append]

end Alone

/-! ### Convergence -/

/-- **The replicas converge** in every run in which each host takes the calls in the order of the
hosts before it: as soon as no call is in flight, they have the same lists and the same blocks, and
a number that a call returned names one block at all of them. -/
theorem replicas_converge [OverflowTable M] [DecidableEq C] {s₀ : Storage c M}
    {rs : List (Replica c M)} {es : List (ClusterEvent c C)} {s : Cluster c M C}
    (hs : ∀ r ∈ rs, r.storage = s₀) (h : Steps OrderedStep (.start rs) es s)
    (hquiet : s.Quiescent) : s.Converged := by
  have hordered : s.Ordered s₀ :=
    h.invariant (fun _ _ _ h hstep => h.step hstep) (Cluster.Ordered.start hs)
  refine ⟨fun r hr q hq fuel v => ?_, fun r hr q hq v b => ?_, fun id call hcall i hi => ?_⟩
  · rw [hordered.storage_eq hquiet hr hq]
  · rw [hordered.storage_eq hquiet hr hq]
  · exact hordered.logged id call hcall i (hquiet id call hcall ▸ hi)

/-! ### Two pushes to two replicas -/

/-- Two replicas without blocks. -/
def twoReplicas : List (Replica Config.small AllMapped) :=
  [⟨true, true, .ok, smallStorage⟩, ⟨true, true, .ok, smallStorage⟩]

/-- A host takes a call when it has a new file for it. -/
private theorem ClusterStep.take_ok [OverflowTable M] [DecidableEq C] {s : Cluster c M C} (id : C)
    (report : Report) {call : UpdateCall c} {r : Replica c M} (hcall : s.calls id = some call)
    (hr : s.replicas[call.next]? = some r) (hreach : r.reachable = true)
    (hreport : (ProviderHandler.update call.op { r with disk := .ok }).1 = .ok report)
    (hok : report.isFailure = false) :
    ClusterStep s (.apply id .ok)
      (s.take id call (ProviderHandler.update call.op { r with disk := .ok }).2 report) :=
  .apply hcall hr hreach (Prod.ext hreport rfl) hok

/-- Two pushes that are in progress at the same time, and reach the second host in the order of the
first one. -/
theorem replicas_converge_twoReplicas : ∃ s : Cluster Config.small AllMapped Bool,
    Steps ClusterStep (.start twoReplicas) [.begin false (.push 0 fun _ => 1),
      .begin true (.push 1 fun _ => 2), .apply false .ok, .apply true .ok, .apply false .ok,
      .apply true .ok] s ∧ s.Converged := by
  have hs : ∀ r ∈ twoReplicas, r.storage = smallStorage := by simp [twoReplicas]
  have h₁ : OrderedStep (.start twoReplicas) (.begin false (.push 0 fun _ => 1)) _ :=
    ⟨.begin rfl, trivial⟩
  have h₂ := (Steps.single h₁).snoc
    ⟨show ClusterStep _ (.begin true (.push 1 fun _ => 2)) _ from .begin rfl, trivial⟩
  have h₃ := h₂.snoc ⟨.take_ok false (.blkno 0) rfl rfl rfl (by decide +kernel) rfl, by
    rintro call hcall j hj
    cases hcall
    exact absurd hj (Nat.not_lt_zero j)⟩
  have h₄ := h₃.snoc ⟨.take_ok true (.blkno 1) rfl rfl rfl (by decide +kernel) rfl, by
    rintro call hcall j hj
    cases hcall
    exact absurd hj (Nat.not_lt_zero j)⟩
  have h₅ := h₄.snoc ⟨.take_ok false (.blkno 0) rfl rfl rfl (by decide +kernel) rfl, by
    rintro call hcall j hj
    cases hcall
    obtain rfl := Nat.lt_one_iff.mp hj
    exact ⟨[true], rfl⟩⟩
  have h₆ := h₅.snoc ⟨.take_ok true (.blkno 1) rfl rfl rfl (by decide +kernel) rfl, by
    rintro call hcall j hj
    cases hcall
    obtain rfl := Nat.lt_one_iff.mp hj
    exact ⟨[], rfl⟩⟩
  refine ⟨_, h₆.mono fun _ _ _ h => h.1, replicas_converge hs h₆ ?_⟩
  rintro (_ | _) call hcall <;> cases hcall <;> rfl

/-- Two pushes that reach the two hosts in different orders: the first vertex has block 0 at one
host and block 1 at the other one. -/
theorem replicas_converge_false_of_overtaking : ∃ s : Cluster Config.small AllMapped Bool,
    Steps ClusterStep (.start twoReplicas) [.begin false (.push 0 fun _ => 1),
      .begin true (.push 1 fun _ => 2), .apply false .ok, .apply true .ok, .apply true .ok,
      .apply false .ok] s ∧ s.Quiescent ∧ ¬s.Converged := by
  have h₁ : ClusterStep (.start twoReplicas) (.begin false (.push 0 fun _ => 1)) _ := .begin rfl
  have h₂ := (Steps.single h₁).snoc
    (show ClusterStep _ (.begin true (.push 1 fun _ => 2)) _ from .begin rfl)
  have h₃ := h₂.snoc (.take_ok false (.blkno 0) rfl rfl rfl (by decide +kernel) rfl)
  have h₄ := h₃.snoc (.take_ok true (.blkno 1) rfl rfl rfl (by decide +kernel) rfl)
  have h₅ := h₄.snoc (.take_ok true (.blkno 0) rfl rfl rfl (by decide +kernel) rfl)
  have h₆ := h₅.snoc (.take_ok false (.blkno 1) rfl rfl rfl (by decide +kernel) rfl)
  refine ⟨_, h₆, ?_, fun h => ?_⟩
  · rintro (_ | _) call hcall <;> cases hcall <;> rfl
  · have hlists := h.lists _ List.mem_cons_self _ (List.mem_cons_of_mem _ List.mem_cons_self) 2 0
    revert hlists
    decide +kernel

end Nynn
