import Nynn.Storage.Environment
import Nynn.Storage.FreePool
import Nynn.Storage.Transparency

/-!
# Updates of replicas

The producer sends an update of a vertex to the hosts of its subgraph, one after the other, and
returns at the first host that reports a failure. Nothing undoes the update at the hosts before.

A host can fail where another one succeeds: it may be out of reach, its provider may not have the
subgraph attached, or its operating system may refuse a new overflow file or the mapping of an old
one. The storage itself behaves in the same way on all hosts: an update that succeeds does not
depend on the operating system.

Source: `ProducerDaemon.cpp`, `ProviderDaemon.cpp`, `ProviderRPC.h`.

## Main definitions

* `Nynn.Replica`: a host with its storage of a subgraph.
* `Nynn.Report`: what an update reports.
* `Nynn.ProviderHandler.update`, `Nynn.ProducerHandler.update`: the handlers of the daemons.
* `Nynn.Replica.Applies`, `Nynn.Replica.Fails`: what the update does to one host.

## Main results

* `Nynn.replicated_update`: what a replicated update does to the replicas.
-/

namespace Nynn

open Program

variable {c : Config} {M : Type}

/-- A host that has a replica of a subgraph, and what happens there during an update. -/
structure Replica (c : Config) (M : Type) where
  /-- A connection to the provider can be opened. -/
  reachable : Bool
  /-- `m_subgraphMap` has the storage of the subgraph. -/
  attached : Bool
  /-- What the operating system does when a new overflow file is made. -/
  disk : CreateOutcome
  storage : Storage c M

/-- What an update reports: the number of a new block, whether a block was removed, or an exception
at the other end of the connection. -/
inductive Report
  | blkno (no : UInt32)
  | bool (b : Bool)
  | exception
  deriving DecidableEq, Repr

/-- The report is a failure. -/
def Report.isFailure : Report → Bool
  | blkno no => no = invalidBlkno
  | bool b => !b
  | exception => true

section Handlers

variable [OverflowTable M] (op : ListOp c.blockSz)

/-- The reply of a provider. The handlers of `pop`, `shift` and `remove` catch exceptions and return
`false`; those of the insertions let them pass. -/
def ProviderHandler.reply : Except Fault (Option UInt32) → Except Fault Report
  | .ok (some no) => .ok (.blkno no)
  | .ok none => .ok (.bool true)
  | .error (.exception _) => .ok (if op.newBlk.isSome then .exception else .bool false)
  | .error e => .error e

/-- A handler of `ProviderHandler`: `getSubgraph`, and the update on its storage. -/
def ProviderHandler.update (r : Replica c M) : Except Fault Report × Replica c M :=
  let (res, s) :=
    if r.attached then (op.run r.disk).run r.storage
    else (.error (.exception "Cannot get detached subgraph!"), r.storage)
  (reply op res, { r with storage := s })

/-- The loop of a handler of `ProducerHandler`. The lock of the vertex is free at every host, as no
other call is made. -/
def ProducerHandler.loop :
    Report → List (Replica c M) → Except Fault Report × List (Replica c M)
  | report, [] => (.ok report, [])
  | _, r :: rs =>
    if r.reachable then
      match ProviderHandler.update op r with
      | (.error e, r') => (.error e, r' :: rs)
      | (.ok report, r') =>
        if report.isFailure then (.ok report, r' :: rs)
        else
          let (res, rs') := loop report rs
          (res, r' :: rs')
    else (.ok .exception, r :: rs)

/-- A handler of `ProducerHandler`, on the hosts that `getHosts` returns. -/
def ProducerHandler.update (rs : List (Replica c M)) : Except Fault Report × List (Replica c M) :=
  loop op (if op.newBlk.isSome then .blkno invalidBlkno else .bool true) rs

end Handlers

/-! ### Hosts one after the other -/

section Hosts

variable [OverflowTable M] {op : ListOp c.blockSz} {r r' : Replica c M} {rs rs' : List (Replica c M)}
  {report last : Report}

/-- The report of an exception at a host. -/
def ListOp.failure (op : ListOp c.blockSz) : Report :=
  if op.newBlk.isSome then .exception else .bool false

/-- The update goes through at a host, and leaves the storage `s`, the answers of the operating
system apart. -/
def Replica.Applies (op : ListOp c.blockSz) (s : Storage c M) (r r' : Replica c M) : Prop :=
  r.reachable = true ∧ r.attached = true ∧
    ∃ res s', (op.run r.disk).run r.storage = (.ok res, s') ∧ res ≠ some invalidBlkno ∧
      s'.healed = s ∧ r' = { r with storage := s' }

/-- The update does not go through at a host: the host is out of reach or does not have the
subgraph attached, and is not changed; or its own call ends with an exception, or with no block, and
the host is left as that call left it. -/
inductive Replica.Fails (op : ListOp c.blockSz) (r : Replica c M) : Report → Replica c M → Prop
  | unreachable (h : r.reachable = false) : Replica.Fails op r .exception r
  | detached (h : r.attached = false) : Replica.Fails op r op.failure r
  | threw {what : String} {s' : Storage c M}
      (h : (op.run r.disk).run r.storage = (.error (.exception what), s')) :
      Replica.Fails op r op.failure { r with storage := s' }
  | noBlock {s' : Storage c M}
      (h : (op.run r.disk).run r.storage = (.ok (some invalidBlkno), s')) :
      Replica.Fails op r (.blkno invalidBlkno) { r with storage := s' }

/-- An exception at a host is reported as a failure. -/
private theorem isFailure_failure : op.failure.isFailure = true := by
  rw [ListOp.failure]
  split_ifs <;> rfl

theorem ProviderHandler.update_of_attached (hatt : r.attached = true)
    {res : Except Fault (Option UInt32)} {s' : Storage c M}
    (hrun : (op.run r.disk).run r.storage = (res, s')) :
    ProviderHandler.update op r = (ProviderHandler.reply op res, { r with storage := s' }) := by
  rw [ProviderHandler.update, if_pos hatt, hrun]

theorem ProviderHandler.update_of_not_attached (hatt : ¬r.attached = true) :
    ProviderHandler.update op r = (.ok op.failure, r) := by
  rw [ProviderHandler.update, if_neg hatt]
  rfl

/-- A report that is no failure comes from an update that went through. -/
theorem ProviderHandler.of_update (h : ProviderHandler.update op r = (.ok report, r'))
    (hok : report.isFailure = false) :
    ∃ res s', r.attached = true ∧ (op.run r.disk).run r.storage = (.ok res, s') ∧
      res ≠ some invalidBlkno ∧ ProviderHandler.reply op (.ok res) = .ok report ∧
      r' = { r with storage := s' } := by
  by_cases hatt : r.attached = true
  · rcases hrun : (op.run r.disk).run r.storage with ⟨res, s'⟩
    rw [ProviderHandler.update_of_attached hatt hrun, Prod.mk.injEq] at h
    obtain ⟨hreply, rfl⟩ := h
    cases res with
    | error e =>
      cases e with
      | exception what =>
        obtain rfl : op.failure = report := Except.ok.inj hreply
        rw [isFailure_failure] at hok
        cases hok
      | nullPointer | stalePointer | outOfRange => cases hreply
    | ok res =>
      refine ⟨res, s', hatt, rfl, ?_, hreply, rfl⟩
      rintro rfl
      rw [← Except.ok.inj hreply] at hok
      simp [Report.isFailure] at hok
  · rw [ProviderHandler.update_of_not_attached hatt, Prod.mk.injEq, Except.ok.injEq] at h
    rw [← h.1, isFailure_failure] at hok
    cases hok

/-- A report of a failure comes from an update that did not go through. -/
theorem ProviderHandler.fails_of_update (h : ProviderHandler.update op r = (.ok report, r'))
    (hfail : report.isFailure = true) : r.Fails op report r' := by
  by_cases hatt : r.attached = true
  · rcases hrun : (op.run r.disk).run r.storage with ⟨res, s'⟩
    rw [ProviderHandler.update_of_attached hatt hrun, Prod.mk.injEq] at h
    obtain ⟨hreply, rfl⟩ := h
    cases res with
    | error e =>
      cases e with
      | exception what =>
        obtain rfl : op.failure = report := Except.ok.inj hreply
        exact .threw hrun
      | nullPointer | stalePointer | outOfRange => cases hreply
    | ok res =>
      cases res with
      | none =>
        rw [← Except.ok.inj hreply] at hfail
        cases hfail
      | some no =>
        rw [← Except.ok.inj hreply] at hfail ⊢
        obtain rfl : no = invalidBlkno := of_decide_eq_true hfail
        exact .noBlock hrun
  · rw [ProviderHandler.update_of_not_attached hatt, Prod.mk.injEq, Except.ok.injEq] at h
    obtain ⟨rfl, rfl⟩ := h
    exact .detached (Bool.eq_false_iff.mpr hatt)

/-- An update that goes through leaves the storage that it leaves on every system. -/
private theorem applies_of_update {s : Storage c M} (hs : r.storage.healed = s)
    (hreach : r.reachable = true) (h : ProviderHandler.update op r = (.ok report, r'))
    (hok : report.isFailure = false) : r.Applies op ((op.run .ok).run s).2 r' := by
  obtain ⟨res, s', hatt, hrun, hres, -, hr'⟩ := ProviderHandler.of_update h hok
  refine ⟨hreach, hatt, res, s', hrun, hres, ?_, hr'⟩
  rw [← hs, ListOp.run_healed hrun]

/-- A host that has no block for an insertion comes before every host where it goes through. -/
private theorem not_applies_of_noBlock {q q' : Replica c M} {s s' t : Storage c M}
    (hs : r.storage.healed = s) (hq : q.storage.healed = s)
    (hrun : (op.run r.disk).run r.storage = (.ok (some invalidBlkno), s')) :
    ¬q.Applies op t q' := by
  rintro ⟨-, -, res, s'', hrun', hres, -, -⟩
  have h := ListOp.run_healed hrun
  have h' := ListOp.run_healed hrun'
  rw [hs] at h
  rw [hq, h, Prod.mk.injEq, Except.ok.injEq] at h'
  exact hres h'.1.symm

/-- The loop goes through all hosts, or ends at the first one that fails. -/
private theorem loop_spec {s : Storage c M} (hs : ∀ r ∈ rs, r.storage.healed = s)
    (h : ProducerHandler.loop op last rs = (.ok report, rs')) :
    (List.Forall₂ (Replica.Applies op ((op.run .ok).run s).2) rs rs' ∧
      (report.isFailure = false ∨ (rs = [] ∧ report = last))) ∨
    ∃ done done' r r' rest, rs = done ++ r :: rest ∧ rs' = done' ++ r' :: rest ∧
      List.Forall₂ (Replica.Applies op ((op.run .ok).run s).2) done done' ∧
      r.Fails op report r' ∧ report.isFailure = true := by
  induction rs generalizing last rs' with
  | nil =>
    rw [ProducerHandler.loop, Prod.mk.injEq, Except.ok.injEq] at h
    obtain ⟨rfl, rfl⟩ := h
    exact Or.inl ⟨.nil, Or.inr ⟨rfl, rfl⟩⟩
  | cons r rs ih =>
    rw [ProducerHandler.loop] at h
    by_cases hreach : r.reachable = true
    · rw [if_pos hreach] at h
      rcases hupd : ProviderHandler.update op r with ⟨e | reply, r'⟩
      · rw [hupd] at h
        cases h
      · simp only [hupd] at h
        by_cases hfail : reply.isFailure = true
        · rw [if_pos hfail, Prod.mk.injEq, Except.ok.injEq] at h
          obtain ⟨rfl, rfl⟩ := h
          exact Or.inr ⟨[], [], r, r', rs, rfl, rfl, .nil,
            ProviderHandler.fails_of_update hupd hfail, hfail⟩
        · rw [if_neg hfail] at h
          rw [Bool.not_eq_true] at hfail
          have happlies := applies_of_update (hs r List.mem_cons_self) hreach hupd hfail
          rcases hrest : ProducerHandler.loop op reply rs with ⟨res, rs₁⟩
          rw [hrest, Prod.mk.injEq] at h
          obtain ⟨rfl, rfl⟩ := h
          rcases ih (fun r hr => hs r (List.mem_cons_of_mem _ hr)) hrest with
            ⟨hall, hreport⟩ | ⟨done, done', q, q', rest, rfl, rfl, hall, hq, hreport⟩
          · refine Or.inl ⟨.cons happlies hall, Or.inl ?_⟩
            exact hreport.elim id fun hand => hand.2 ▸ hfail
          · exact Or.inr ⟨r :: done, r' :: done', q, q', rest, rfl, rfl, .cons happlies hall, hq,
              hreport⟩
    · rw [if_neg hreach, Prod.mk.injEq, Except.ok.injEq] at h
      obtain ⟨rfl, rfl⟩ := h
      exact Or.inr ⟨[], [], r, r, rs, rfl, rfl, .nil, .unreachable (Bool.eq_false_iff.mpr hreach),
        rfl⟩

/-- A host that answers an insertion with no block comes first. -/
private theorem eq_nil_of_noBlock {done done' : List (Replica c M)} {s t : Storage c M}
    (hs : r.storage.healed = s) (hdone : ∀ q ∈ done, q.storage.healed = s)
    (hall : List.Forall₂ (Replica.Applies op t) done done')
    (hr : r.Fails op (.blkno invalidBlkno) r') : done = [] := by
  cases hall with
  | nil => rfl
  | cons hq =>
    exfalso
    obtain ⟨report, hreport⟩ : ∃ report, report = Report.blkno invalidBlkno := ⟨_, rfl⟩
    rw [← hreport] at hr
    cases hr with
    | unreachable => cases hreport
    | detached | threw =>
      rw [ListOp.failure] at hreport
      split_ifs at hreport
    | noBlock hrun => exact not_applies_of_noBlock hs (hdone _ List.mem_cons_self) hrun hq

end Hosts

/-- **What a replicated update does.** The hosts have equal storages, each with an operating system
of its own, and no other call is made. When the update is reported as done, it went through at every
host, and the storages are equal again. When a failure is reported, the update went through at the
hosts before the first one that fails, the hosts after it are not changed, and the host that fails
has what its own call did there before it failed. A host that answers with no block is the first
host. -/
theorem replicated_update [OverflowTable M] (op : ListOp c.blockSz) {s : Storage c M}
    {rs rs' : List (Replica c M)} {report : Report} (hs : ∀ r ∈ rs, r.storage.healed = s)
    (h : ProducerHandler.update op rs = (.ok report, rs')) :
    (report.isFailure = false → ∃ s', List.Forall₂ (Replica.Applies op s') rs rs') ∧
    (report.isFailure = true → rs ≠ [] → ∃ s' done done' r r' rest,
      rs = done ++ r :: rest ∧ rs' = done' ++ r' :: rest ∧
      List.Forall₂ (Replica.Applies op s') done done' ∧ r.Fails op report r' ∧
      (report = .blkno invalidBlkno → done = [])) := by
  rcases loop_spec hs h with ⟨hall, hreport⟩ |
    ⟨done, done', r, r', rest, rfl, hrs', hall, hr, hfail⟩
  · refine ⟨fun _ => ⟨_, hall⟩, fun hfail hne => ?_⟩
    rcases hreport with hok | ⟨hnil, -⟩
    · rw [hfail] at hok
      cases hok
    · exact absurd hnil hne
  · refine ⟨fun hok => ?_, fun _ _ => ⟨_, done, done', r, r', rest, rfl, hrs', hall, hr, ?_⟩⟩
    · rw [hfail] at hok
      cases hok
    · rintro rfl
      exact eq_nil_of_noBlock (hs r (by simp)) (fun q hq => hs q (by simp [hq])) hall hr

/-- A storage whose first vertex has five blocks, the last one in the second group of overflow
blocks. The first group has left the table. -/
private def fiveBlocks : Storage Config.small (Overflow Config.small) :=
  (runOps (List.replicate 5 (.update .ok (.push 0 fun _ => 1))) (formatOverflow Config.small 0).2).2

/-- A host that maps every file again, and one that maps none. -/
def twoHosts : List (Replica Config.small (Overflow Config.small)) :=
  [⟨true, true, .ok, fiveBlocks.healed⟩,
    ⟨true, true, .ok, { fiveBlocks with reopens := fun _ => some "Cannot allocate memory" }⟩]

/-- A shift goes through at both hosts. A pop needs the block before the last one: it goes through
at the first host and fails at the second one, where the file of that block cannot be mapped
again. -/
theorem replicated_update_small :
    (∃ s', List.Forall₂ (Replica.Applies (.shift 0) s') twoHosts
      (ProducerHandler.update (.shift 0) twoHosts).2) ∧
    ∃ s' done done' r r' rest, twoHosts = done ++ r :: rest ∧
      (ProducerHandler.update (.pop 0) twoHosts).2 = done' ++ r' :: rest ∧
      List.Forall₂ (Replica.Applies (.pop 0) s') done done' ∧ r.Fails (.pop 0) (.bool false) r' ∧
      (Report.bool false = .blkno invalidBlkno → done = []) := by
  have hs : ∀ r ∈ twoHosts, r.storage.healed = fiveBlocks.healed := by
    rw [twoHosts]
    generalize fiveBlocks = s
    exact List.forall_mem_cons.mpr ⟨rfl, List.forall_mem_singleton.mpr rfl⟩
  have hdone : (ProducerHandler.update (.shift 0) twoHosts).1 = .ok (.bool true) := by
    decide +kernel
  have hfail : (ProducerHandler.update (.pop 0) twoHosts).1 = .ok (.bool false) := by
    decide +kernel
  obtain ⟨rs₁, hrs₁⟩ : ∃ rs₁, rs₁ = (ProducerHandler.update (.shift 0) twoHosts).2 := ⟨_, rfl⟩
  obtain ⟨rs₂, hrs₂⟩ : ∃ rs₂, rs₂ = (ProducerHandler.update (.pop 0) twoHosts).2 := ⟨_, rfl⟩
  have hshift : ProducerHandler.update (.shift 0) twoHosts = (.ok (.bool true), rs₁) :=
    Prod.ext hdone hrs₁.symm
  have hpop : ProducerHandler.update (.pop 0) twoHosts = (.ok (.bool false), rs₂) :=
    Prod.ext hfail hrs₂.symm
  rw [← hrs₁, ← hrs₂]
  exact ⟨(replicated_update (.shift 0) hs hshift).1 rfl,
    (replicated_update (.pop 0) hs hpop).2 rfl (List.cons_ne_nil _ _)⟩

/-- The half-done pop: the size of the vertex has changed, and its list has not. -/
example : ((ProducerHandler.update (.pop 0) twoHosts).2.map fun r =>
    (((getSize 0).run r.storage).1, ((getTailBlkno 0).run r.storage).1)) =
      [(.ok 1028, .ok 3), (.ok 1028, .ok 4)] := by decide +kernel

/-- A storage whose first vertex has two blocks. -/
def twoBlocks : FlatStorage Config.small :=
  ((push .ok 0 fun _ => 2).run ((push .ok 0 fun _ => 1).run smallStorage).2).2

/-- A host that does not have the subgraph attached: `pop` reports a failure, and the host before it
has dropped a block. -/
theorem replicated_update_false_of_detached :
    ¬∀ (op : ListOp Config.small.blockSz) (s : FlatStorage Config.small)
      (rs rs' : List (Replica Config.small AllMapped)) (report : Report),
      (∀ r ∈ rs, r.storage = s) → ProducerHandler.update op rs = (.ok report, rs') →
      report.isFailure = true → report ≠ .exception → ∀ r' ∈ rs', ∀ fuel v,
        ((readAllBlknos fuel v).run r'.storage).1 = ((readAllBlknos fuel v).run s).1 := by
  intro hall
  have hlist := hall (.pop 0) twoBlocks
    [⟨true, true, .ok, twoBlocks⟩, ⟨true, false, .ok, twoBlocks⟩] _ (.bool false) (by simp)
    (Prod.ext (by decide +kernel) rfl) rfl (by decide) _ List.mem_cons_self 3 0
  revert hlist
  decide +kernel

end Nynn
