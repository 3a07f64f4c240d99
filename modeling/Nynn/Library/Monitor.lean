import Nynn.Library.Transition
import Mathlib.Algebra.BigOperators.Group.Finset.Basic
import Mathlib.Algebra.Order.BigOperators.Group.Finset
import Mathlib.Data.Fintype.Basic

/-!
# Monitors

A monitor guards data by a mutex and by condition variables. A call takes the mutex and tests its
guard; as long as the guard is false it sleeps on a condition variable, without the mutex. Then it
changes the data, broadcasts condition variables and releases the mutex. Who is woken up, by a
broadcast or for no reason, takes the mutex again and tests again.

The calls of a monitor are atomic: they happen one after another, each when its guard is true. When
a call that makes a guard true broadcasts the condition variable of the guard, no wake-up is lost,
and the calls return unless their guards are false.

## Main definitions

* `Monitor`: the guards, the changes and the condition variables of the calls.
* `Monitor.Step`: the steps of the threads.
* `Monitor.Replays`: calls one after another.
* `Monitor.Signals`: the calls wake up whom they should.
* `Monitor.Quiet`: no thread can go on.

## Main results

* `Monitor.replays_of_run`: the calls of a run are calls one after another.
* `Monitor.log_eq`: a call returns what its change has given.
* `Monitor.quiet_of_stuck`: who cannot go on has no call, or sleeps and its guard is false.
* `Monitor.length_add_work_le`: the threads cannot go on for ever without new calls.
-/

/-- The calls `O` on data `σ`, with results `R` and condition variables `V`. -/
structure Monitor (σ O R V : Type*) where
  guard : O → σ → Bool
  change : O → σ → σ × R
  /-- Where a call sleeps when its guard is false. -/
  waitsOn : O → V
  broadcasts : O → List V

namespace Monitor

open Transition

variable {σ O R V T : Type*}

/-- Where a thread is. -/
inductive Phase (O R : Type*)
  | idle
  /-- It waits for the mutex. -/
  | entering (o : O)
  /-- It has the mutex and tests the guard. -/
  | testing (o : O)
  | asleep (o : O)
  /-- It has the mutex and has changed the data. -/
  | changed (o : O) (r : R)
  /-- It has the mutex and has broadcast. -/
  | leaving (o : O) (r : R)

namespace Phase

/-- The thread has the mutex. -/
def hasMutex : Phase O R → Bool
  | testing _ | changed _ _ | leaving _ _ => true
  | _ => false

/-- The call that has not changed the data yet. -/
def waiting : Phase O R → List O
  | entering o | testing o | asleep o => [o]
  | _ => []

/-- The call that has changed the data and has not returned yet. -/
def done : Phase O R → List (O × R)
  | changed o r | leaving o r => [(o, r)]
  | _ => []

variable [DecidableEq V]

/-- What a broadcast makes of a thread. -/
def rouse (M : Monitor σ O R V) (vs : List V) : Phase O R → Phase O R
  | asleep o => if M.waitsOn o ∈ vs then entering o else asleep o
  | p => p

variable {M : Monitor σ O R V} {vs : List V} {p : Phase O R}

@[simp] theorem hasMutex_rouse : (p.rouse M vs).hasMutex = p.hasMutex := by
  cases p <;> simp only [rouse]
  split <;> rfl

@[simp] theorem done_rouse : (p.rouse M vs).done = p.done := by
  cases p <;> simp only [rouse]
  split <;> rfl

@[simp] theorem waiting_rouse : (p.rouse M vs).waiting = p.waiting := by
  cases p <;> simp only [rouse]
  split <;> rfl

/-- Who sleeps on after a broadcast was asleep, on another condition variable. -/
theorem of_rouse_asleep {o : O} (h : p.rouse M vs = asleep o) :
    p = asleep o ∧ M.waitsOn o ∉ vs := by
  cases p with
  | asleep o' =>
    rw [rouse] at h
    split at h
    · cases h
    · cases h
      exact ⟨rfl, ‹_›⟩
  | _ => cases h

end Phase

/-- The data, the mutex and the threads `T`. -/
structure State (σ O R T : Type*) where
  data : σ
  mutex : Option T
  phase : T → Phase O R
  /-- The calls that were made, in order. -/
  called : List (T × O)
  /-- The calls that have changed the data, in order. -/
  log : List (T × O × R)
  /-- The calls that have returned, in order. -/
  returned : List (T × O × R)

def State.init (data : σ) : State σ O R T := ⟨data, none, fun _ => .idle, [], [], []⟩

/-- A step of a thread. -/
inductive Event (T O : Type*)
  | call (t : T) (o : O)
  | acquire (t : T)
  | sleep (t : T)
  /-- A wake-up without a broadcast. -/
  | wake (t : T)
  | change (t : T)
  | broadcast (t : T)
  | release (t : T)

/-- The threads go on without a new call and without a wake-up for no reason. -/
def Event.goesOn : Event T O → Bool
  | call _ _ | wake _ => false
  | _ => true

/-- The thread whose step it is. -/
def Event.thread : Event T O → T
  | call t _ | acquire t | sleep t | wake t | change t | broadcast t | release t => t

variable [DecidableEq T] [DecidableEq V] (M : Monitor σ O R V)

def State.setPhase (s : State σ O R T) (t : T) (p : Phase O R) : State σ O R T :=
  { s with phase := Function.update s.phase t p }

section SetPhase

variable {s : State σ O R T} {t t' : T} {p : Phase O R}

@[simp] theorem State.phase_setPhase :
    (s.setPhase t p).phase t' = if t' = t then p else s.phase t' := Function.update_apply ..

@[simp] theorem State.data_setPhase : (s.setPhase t p).data = s.data := rfl

@[simp] theorem State.mutex_setPhase : (s.setPhase t p).mutex = s.mutex := rfl

@[simp] theorem State.called_setPhase : (s.setPhase t p).called = s.called := rfl

@[simp] theorem State.log_setPhase : (s.setPhase t p).log = s.log := rfl

@[simp] theorem State.returned_setPhase : (s.setPhase t p).returned = s.returned := rfl

end SetPhase

inductive Step : State σ O R T → Event T O → State σ O R T → Prop
  | call {s : State σ O R T} {t : T} {o : O} (h : s.phase t = .idle) :
      Step s (.call t o) { s.setPhase t (.entering o) with called := s.called ++ [(t, o)] }
  | acquire {s : State σ O R T} {t : T} {o : O} (h : s.phase t = .entering o)
      (hmutex : s.mutex = none) :
      Step s (.acquire t) { s.setPhase t (.testing o) with mutex := some t }
  | sleep {s : State σ O R T} {t : T} {o : O} (h : s.phase t = .testing o)
      (hguard : M.guard o s.data = false) :
      Step s (.sleep t) { s.setPhase t (.asleep o) with mutex := none }
  | wake {s : State σ O R T} {t : T} {o : O} (h : s.phase t = .asleep o) :
      Step s (.wake t) (s.setPhase t (.entering o))
  | change {s : State σ O R T} {t : T} {o : O} (h : s.phase t = .testing o)
      (hguard : M.guard o s.data = true) :
      Step s (.change t)
        { s.setPhase t (.changed o (M.change o s.data).2) with
          data := (M.change o s.data).1
          log := s.log ++ [(t, o, (M.change o s.data).2)] }
  | broadcast {s : State σ O R T} {t : T} {o : O} {r : R} (h : s.phase t = .changed o r) :
      Step s (.broadcast t)
        ({ s with phase := fun t' => (s.phase t').rouse M (M.broadcasts o) }.setPhase t
          (.leaving o r))
  | release {s : State σ O R T} {t : T} {o : O} {r : R} (h : s.phase t = .leaving o r) :
      Step s (.release t)
        { s.setPhase t .idle with mutex := none, returned := s.returned ++ [(t, o, r)] }

/-! ### Atomic calls -/

/-- The calls `log` lead from `d` to `d'`, one after another, each when its guard is true. -/
inductive Replays (d : σ) : List (O × R) → σ → Prop
  | nil : Replays d [] d
  | snoc {log : List (O × R)} {d' : σ} {o : O} (h : Replays d log d')
      (hguard : M.guard o d' = true) :
      Replays d (log ++ [(o, (M.change o d').2)]) (M.change o d').1

/-- The part of a list that is about the thread `t`. -/
def byThread {A : Type*} (t : T) (l : List (T × A)) : List A :=
  (l.filter (·.1 = t)).map (·.2)

/-- What a thread has done is what has returned and what is still to return. -/
structure Accounts (s : State σ O R T) : Prop where
  log : ∀ t, byThread t s.log = byThread t s.returned ++ (s.phase t).done
  called : ∀ t, byThread t s.called = (byThread t s.log).map (·.1) ++ (s.phase t).waiting

variable {M} {s s' : State σ O R T} {e : Event T O} {es : List (Event T O)} {d : σ}

@[simp] theorem byThread_append {A : Type*} {t : T} {l l' : List (T × A)} :
    byThread t (l ++ l') = byThread t l ++ byThread t l' := by
  rw [byThread, List.filter_append, List.map_append]
  rfl

@[simp] theorem byThread_single {A : Type*} {t t' : T} {a : A} :
    byThread t [(t', a)] = if t = t' then [a] else [] := by
  rw [byThread, List.filter_singleton]
  by_cases h : t = t'
  · simp [h]
  · simp [h, Ne.symm h]

theorem Replays.step (h : M.Replays d (s.log.map (·.2)) s.data) (hstep : M.Step s e s') :
    M.Replays d (s'.log.map (·.2)) s'.data := by
  cases hstep with
  | change _ hguard =>
    rw [List.map_append, List.map_singleton]
    exact h.snoc hguard
  | _ => exact h

/-- A step of another thread leaves the call of a thread as it is. -/
theorem Step.frame (hstep : M.Step s e s') {t : T} (ht : t ≠ e.thread) :
    (s'.phase t).hasMutex = (s.phase t).hasMutex ∧ (s'.phase t).done = (s.phase t).done ∧
      (s'.phase t).waiting = (s.phase t).waiting ∧ byThread t s'.log = byThread t s.log ∧
        byThread t s'.called = byThread t s.called ∧
          byThread t s'.returned = byThread t s.returned := by
  cases hstep <;> simp_all [Event.thread]

theorem Accounts.step (h : Accounts s) (hstep : M.Step s e s') : Accounts s' := by
  have hthread (t : T) : byThread t s'.log = byThread t s'.returned ++ (s'.phase t).done ∧
      byThread t s'.called = (byThread t s'.log).map (·.1) ++ (s'.phase t).waiting := by
    by_cases ht : t = e.thread
    · have hlog := h.log t
      have hcalled := h.called t
      subst ht
      cases hstep <;> simp_all [Event.thread, Phase.done, Phase.waiting]
    · obtain ⟨-, hdone, hwaiting, hlog, hcalled, hreturned⟩ := hstep.frame ht
      rw [hdone, hwaiting, hlog, hcalled, hreturned]
      exact ⟨h.log t, h.called t⟩
  exact ⟨fun t => (hthread t).1, fun t => (hthread t).2⟩

/-! ### The mutex and the wake-ups -/

variable (M) in
/-- A call that makes the guard of another one true broadcasts its condition variable. -/
def Signals : Prop :=
  ∀ o o' d, M.guard o d = false → M.guard o' d = true → M.guard o (M.change o' d).1 = true →
    M.waitsOn o ∈ M.broadcasts o'

variable (M) in
structure Invariant (s : State σ O R T) : Prop where
  mutex : ∀ t, (s.phase t).hasMutex = true ↔ s.mutex = some t
  /-- A sleeper whose guard is true will be woken up. -/
  signalled : ∀ t o, s.phase t = .asleep o → M.guard o s.data = true →
    ∃ t' o' r, s.phase t' = .changed o' r ∧ M.waitsOn o ∈ M.broadcasts o'

omit [DecidableEq T] [DecidableEq V] in
theorem invariant_init : M.Invariant (.init d : State σ O R T) where
  mutex _ := by simp [State.init, Phase.hasMutex]
  signalled _ _ h := by cases h

namespace Invariant

variable (h : M.Invariant s)
include h

omit [DecidableEq T] [DecidableEq V] in
theorem eq_of_hasMutex {t t' : T} (ht : (s.phase t).hasMutex = true)
    (ht' : (s.phase t').hasMutex = true) : t = t' :=
  Option.some.inj (((h.mutex t).mp ht).symm.trans ((h.mutex t').mp ht'))

omit [DecidableEq T] [DecidableEq V] in
/-- As long as the thread with the mutex has not changed the data, no sleeper can go on. -/
theorem guard_of_asleep {t t' : T} {o : O} (ht : (s.phase t).hasMutex = true)
    (hchanged : ∀ o r, s.phase t ≠ .changed o r) (ht' : s.phase t' = .asleep o) :
    M.guard o s.data = false := by
  by_contra hguard
  obtain ⟨t'', o', r, hp, -⟩ := h.signalled t' o ht' (by simpa using hguard)
  have hmutex : (s.phase t'').hasMutex = true := by rw [hp]; rfl
  obtain rfl := h.eq_of_hasMutex ht hmutex
  exact hchanged _ _ hp

theorem mutex_step (hstep : M.Step s e s') (t : T) :
    (s'.phase t).hasMutex = true ↔ s'.mutex = some t := by
  have hthread := h.mutex e.thread
  by_cases ht : t = e.thread
  · subst ht
    cases hstep <;> simp_all [Event.thread, Phase.hasMutex]
  · have hmutex := h.mutex t
    rw [(hstep.frame ht).1, hmutex]
    have hne := Ne.symm ht
    cases hstep <;> simp_all [Event.thread, Phase.hasMutex]

omit [DecidableEq V] in
/-- Who is going to wake up the sleeper still is, after a step of another thread. -/
theorem signalled_of_frame {t t₀ : T} {o : O} {p : Phase O R} (hp : ∀ o r, s.phase t₀ ≠ .changed o r)
    (ht : (s.setPhase t₀ p).phase t = .asleep o) (hpo : p ≠ .asleep o)
    (hguard : M.guard o s.data = true) : ∃ t' o' r,
      (s.setPhase t₀ p).phase t' = .changed o' r ∧ M.waitsOn o ∈ M.broadcasts o' := by
  rw [State.phase_setPhase] at ht
  split at ht
  · exact absurd ht hpo
  · obtain ⟨t', o', r, hp', hmem⟩ := h.signalled t o ht hguard
    refine ⟨t', o', r, ?_, hmem⟩
    rw [State.phase_setPhase, if_neg, hp']
    rintro rfl
    exact hp _ _ hp'

theorem signalled_step (hsignals : M.Signals) (hstep : M.Step s e s') {t : T} {o : O}
    (ht : s'.phase t = .asleep o) (hguard : M.guard o s'.data = true) :
    ∃ t' o' r, s'.phase t' = .changed o' r ∧ M.waitsOn o ∈ M.broadcasts o' := by
  cases hstep with
  | call hp | acquire hp hmutex | wake hp | release hp =>
    exact h.signalled_of_frame (by simp [hp]) ht (by simp) hguard
  | @sleep t₀ o₀ hp hguard₀ =>
    refine h.signalled_of_frame (by simp [hp]) ht ?_ hguard
    rintro ⟨rfl⟩
    exact absurd hguard (by simp [hguard₀])
  | @change t₀ o₀ hp hguard₀ =>
    -- no sleeper could go on before, so the guard is true by this change
    have hasleep : s.phase t = .asleep o := by
      rw [State.phase_setPhase] at ht
      split at ht
      · cases ht
      · exact ht
    have hfalse := h.guard_of_asleep (t := t₀) (by simp [hp, Phase.hasMutex]) (by simp [hp]) hasleep
    exact ⟨t₀, o₀, _, if_pos rfl, hsignals o o₀ s.data hfalse hguard₀ hguard⟩
  | @broadcast t₀ o₀ r₀ hp =>
    -- the thread that would wake up the sleeper is this one, and it has
    have hasleep : (s.phase t).rouse M (M.broadcasts o₀) = .asleep o := by
      rw [State.phase_setPhase] at ht
      split at ht
      · cases ht
      · exact ht
    obtain ⟨hasleep, hnot⟩ := Phase.of_rouse_asleep hasleep
    obtain ⟨t', o', r, hp', hmem⟩ := h.signalled t o hasleep hguard
    have hmutex : (s.phase t').hasMutex = true := by rw [hp']; rfl
    obtain rfl := h.eq_of_hasMutex (t := t₀) (by simp [hp, Phase.hasMutex]) hmutex
    rw [hp] at hp'
    cases hp'
    exact absurd hmem hnot

/-- **Step lemma.** -/
protected theorem step (hsignals : M.Signals) (hstep : M.Step s e s') : M.Invariant s' where
  mutex := h.mutex_step hstep
  signalled _ _ := h.signalled_step hsignals hstep

end Invariant

/-! ### Runs -/

variable (M) in
/-- No thread can go on: it has no call, or it sleeps and its guard is false. -/
def Quiet (s : State σ O R T) : Prop :=
  ∀ t, s.phase t = .idle ∨ ∃ o, s.phase t = .asleep o ∧ M.guard o s.data = false

/-- When no thread can go on, every call sleeps, and with reason. -/
theorem Invariant.quiet_of_stuck (h : M.Invariant s)
    (hstuck : ∀ e s', e.goesOn = true → ¬M.Step s e s') : M.Quiet s := by
  have hfree : s.mutex = none := by
    by_contra hsome
    obtain ⟨t, ht⟩ := Option.ne_none_iff_exists'.mp hsome
    have hmutex := (h.mutex t).mpr ht
    cases hp : s.phase t with
    | testing o =>
      cases hguard : M.guard o s.data with
      | true => exact hstuck _ _ rfl (.change hp hguard)
      | false => exact hstuck _ _ rfl (.sleep hp hguard)
    | changed o r => exact hstuck _ _ rfl (.broadcast hp)
    | leaving o r => exact hstuck _ _ rfl (.release hp)
    | _ => simp [hp, Phase.hasMutex] at hmutex
  have hnot (t : T) : (s.phase t).hasMutex = false := by
    have hmutex := h.mutex t
    rw [hfree] at hmutex
    simpa using hmutex
  intro t
  cases hp : s.phase t with
  | idle => exact .inl rfl
  | entering o => exact absurd (Step.acquire hp hfree) (hstuck _ _ rfl)
  | asleep o =>
    refine .inr ⟨o, rfl, ?_⟩
    by_contra hguard
    obtain ⟨t', o', r, hp', -⟩ := h.signalled t o hp (by simpa using hguard)
    have hmutex := hnot t'
    simp [hp', Phase.hasMutex] at hmutex
  | _ =>
    have hmutex := hnot t
    simp [hp, Phase.hasMutex] at hmutex

/-- How many steps a thread may take before the next call, at most: a broadcast, one of `n`, may
wake up every sleeper. -/
def Phase.work (n : ℕ) : Phase O R → ℕ
  | idle => 0
  | leaving _ _ => 1
  | changed _ _ => n
  | asleep _ => 2 * n
  | testing _ => 2 * n + 1
  | entering _ => 2 * n + 2

/-- How many steps the threads may take before the next call, at most. -/
def State.work [Fintype T] (s : State σ O R T) : ℕ :=
  ∑ t, (s.phase t).work (2 * Fintype.card T + 2)

theorem Phase.work_rouse_le {n : ℕ} {vs : List V} {p : Phase O R} :
    (p.rouse M vs).work n ≤ p.work n + 2 := by
  cases p with
  | asleep o =>
    rw [rouse]
    split <;> simp [work]
  | _ => simp [rouse]

section Work

variable [Fintype T]

/-- The work of the thread `t`, and of the others. -/
theorem State.work_setPhase {t : T} {p : Phase O R} : (s.setPhase t p).work =
    p.work (2 * Fintype.card T + 2) +
      ∑ t' ∈ Finset.univ.erase t, (s.phase t').work (2 * Fintype.card T + 2) := by
  rw [work, ← Finset.add_sum_erase _ _ (Finset.mem_univ t), phase_setPhase, if_pos rfl]
  congr 1
  refine Finset.sum_congr rfl fun t' ht' => ?_
  rw [phase_setPhase, if_neg (Finset.ne_of_mem_erase ht')]

omit [DecidableEq T] [DecidableEq V] in
theorem State.work_le :
    s.work ≤ Fintype.card T * (2 * (2 * Fintype.card T + 2) + 2) := by
  have hphase (p : Phase O R) (n : ℕ) : p.work n ≤ 2 * n + 2 := by
    cases p <;> simp only [Phase.work] <;> omega
  exact (Finset.sum_le_card_nsmul _ _ _ fun t _ => hphase _ _).trans_eq (Nat.nsmul_eq_mul ..)

theorem State.work_eq (t : T) : s.work = (s.phase t).work (2 * Fintype.card T + 2) +
    ∑ t' ∈ Finset.univ.erase t, (s.phase t').work (2 * Fintype.card T + 2) :=
  (Finset.add_sum_erase _ _ (Finset.mem_univ t)).symm

theorem Step.work_lt (hstep : M.Step s e s') (he : e.goesOn = true) : s'.work < s.work := by
  have hset {t : T} {p : Phase O R}
      (hp : p.work (2 * Fintype.card T + 2) < (s.phase t).work (2 * Fintype.card T + 2)) :
      (s.setPhase t p).work < s.work := by
    rw [State.work_setPhase, State.work_eq t]
    exact Nat.add_lt_add_right hp _
  cases hstep with
  | call hp | wake hp => cases he
  | acquire hp hmutex | sleep hp hguard | release hp => exact hset (by simp [hp, Phase.work])
  | change hp hguard =>
    refine hset ?_
    rw [hp]
    simp only [Phase.work]
    omega
  | @broadcast t o r hp =>
    have hcard : (Finset.univ.erase t).card < Fintype.card T :=
      Finset.card_lt_univ_of_notMem (Finset.notMem_erase t _)
    have hothers : ∑ t' ∈ Finset.univ.erase t, ((s.phase t').rouse M (M.broadcasts o)).work
        (2 * Fintype.card T + 2) ≤ ∑ t' ∈ Finset.univ.erase t,
          (s.phase t').work (2 * Fintype.card T + 2) + (Finset.univ.erase t).card * 2 := by
      refine (Finset.sum_le_sum fun t' _ => Phase.work_rouse_le).trans_eq ?_
      rw [Finset.sum_add_distrib, Finset.sum_const, Nat.nsmul_eq_mul]
    have hchanged : (Phase.changed o r).work (2 * Fintype.card T + 2) = 2 * Fintype.card T + 2 :=
      rfl
    have hleaving : (Phase.leaving o r).work (2 * Fintype.card T + 2) = 1 := rfl
    rw [State.work_setPhase, State.work_eq t, hp, hchanged, hleaving]
    dsimp only
    omega

/-- **Run lemma.** Without new calls, the threads stop. -/
theorem length_add_work_le (hrun : Steps M.Step s es s') (hes : ∀ e ∈ es, e.goesOn = true) :
    es.length + s'.work ≤ s.work := by
  induction hrun with
  | nil => simp
  | snoc _ hstep ih =>
    rw [List.forall_mem_append] at hes
    have hlt := hstep.work_lt (hes.2 _ (List.mem_singleton_self _))
    have hle := ih hes.1
    rw [List.length_append, List.length_singleton]
    omega

/-- **No lost wake-ups.** Without new calls, the threads stop after so many steps, and then every call
that has not returned sleeps with a guard that is false. -/
theorem Invariant.stops (hsignals : M.Signals) (h : M.Invariant s) (hrun : Steps M.Step s es s')
    (hes : ∀ e ∈ es, e.goesOn = true) :
    es.length ≤ Fintype.card T * (2 * (2 * Fintype.card T + 2) + 2) ∧
      ((∀ e s'', e.goesOn = true → ¬M.Step s' e s'') → M.Quiet s') :=
  ⟨(Nat.le_of_add_right_le (length_add_work_le hrun hes)).trans State.work_le,
    (hrun.invariant (fun _ _ _ h hstep => h.step hsignals hstep) h).quiet_of_stuck⟩

end Work

/-- **Atomic calls.** The calls of a run happen one after another. -/
theorem replays_of_run (hrun : Steps M.Step (.init d) es s) :
    M.Replays d (s.log.map (·.2)) s.data :=
  hrun.invariant (I := fun s => M.Replays d (s.log.map (·.2)) s.data)
    (fun _ _ _ h hstep => h.step hstep) .nil

theorem accounts_of_run (hrun : Steps M.Step (.init d) es s) : Accounts s :=
  hrun.invariant (I := Accounts) (fun _ _ _ h hstep => h.step hstep)
    ⟨fun _ => rfl, fun _ => rfl⟩

theorem invariant_of_run (hsignals : M.Signals) (hrun : Steps M.Step (.init d) es s) :
    M.Invariant s :=
  hrun.invariant (fun _ _ _ h hstep => h.step hsignals hstep) invariant_init

/-- A call that has happened stays in front of the later ones. -/
theorem log_isPrefix (hrun : Steps M.Step s es s') : s.log <+: s'.log := by
  refine hrun.invariant (I := fun s' => s.log <+: s'.log) (fun _ _ _ h hstep => ?_)
    (List.prefix_refl _)
  cases hstep with
  | change => exact h.trans (List.prefix_append _ _)
  | _ => exact h

end Monitor
