import Nynn.Library.Transition
import Mathlib.Logic.Function.Basic

/-!
# The hoses

A client registers a message id with the daemon, and its `rresponder` thread serves the id from
then on: it takes tokens off the queue of the id and sends them to the client. The queues are in
the map `hoses`; `get`, `add` and `remove` lock it one by one. The threads that have a token for a
message id look the queue up with `get` and push the token on it.

A registration is a `get`, which must not find a queue, and an `add`, which returns a queue that is
already there. When the thread ends, its `release_rqueue_t` removes the id, empties the queue and
deletes it. Nothing keeps two threads from both getting `NULL` before either of them adds, nor a
queue from being deleted between the `get` and the `push` of another thread.

Source: `hose_t` and `release_rqueue_t` in `nynn_daemon.h`, `rresponder`, `wresponder` and `reader`
in `nynn_daemon.cpp`.

## Main definitions

* `Nynn.Hoses`, `Nynn.HoseStep`: the map, the queues and the threads, and their steps.
* `Nynn.Hoses.OneConsumer`: a message id has at most one consumer.
* `Nynn.Hoses.Orderly`: the step takes neither of the branches that go wrong.

## Main results

* `Nynn.oneConsumer_of_orderly`: runs of orderly steps.
-/

namespace Nynn

open Transition

/-! ### The map -/

section HoseMap

variable {M : Type} [DecidableEq M]

/-- `hosemap_t`, from message ids to queues. -/
abbrev HoseMap (M : Type) : Type := M → Option ℕ

namespace HoseMap

def get (hosemap : HoseMap M) (k : M) : Option ℕ := hosemap k

/-- The queue for the id, a new one if there is none, and the map. -/
def add (hosemap : HoseMap M) (newQueue : ℕ) (k : M) : ℕ × HoseMap M :=
  match hosemap k with
  | none => (newQueue, Function.update hosemap k (some newQueue))
  | some q => (q, hosemap)

def remove (hosemap : HoseMap M) (k : M) : HoseMap M := Function.update hosemap k none

theorem of_remove {hosemap : HoseMap M} {k k' : M} {q : ℕ}
    (h : hosemap.remove k k' = some q) : k' ≠ k ∧ hosemap k' = some q := by
  by_cases hk : k' = k
  · rw [hk, remove, Function.update_self] at h
    cases h
  · exact ⟨hk, by rwa [remove, Function.update_of_ne hk] at h⟩

end HoseMap

end HoseMap

/-! ### The threads and their steps -/

/-- Where an `rresponder` is. -/
inductive Consumer (M : Type)
  | idle
  /-- `get` has returned `NULL`. -/
  | checked (msgid : M)
  /-- `add` has returned; the client has not been told yet. -/
  | added (msgid : M) (rqueue : ℕ)
  | serving (msgid : M) (rqueue : ℕ)
  /-- `~release_rqueue_t`, after the `remove`. -/
  | draining (rqueue : ℕ)
  | ended
  deriving DecidableEq, Repr

/-- The message id and the queue that the thread has registered. -/
def Consumer.registered {M : Type} : Consumer M → Option (M × ℕ)
  | added msgid rqueue | serving msgid rqueue => some (msgid, rqueue)
  | idle | checked _ | draining _ | ended => none

/-- The queue that the thread uses. -/
def Consumer.rqueue {M : Type} : Consumer M → Option ℕ
  | added _ rqueue | serving _ rqueue | draining rqueue => some rqueue
  | idle | checked _ | ended => none

/-- The hoses, the `rresponder` threads `R` and the threads `P` that push tokens. -/
structure Hoses (M R P T : Type) where
  hosemap : HoseMap M
  queues : ℕ → List T
  /-- Queues that were made so far. -/
  made : ℕ
  deleted : ℕ → Bool
  consumer : R → Consumer M
  /-- The queue that the thread has got from `get` and not pushed on yet. -/
  pusher : P → Option ℕ
  /-- A deleted queue has been used. -/
  misused : Bool

inductive HoseEvent (M R P T : Type)
  | get (r : R) (msgid : M)
  | add (r : R)
  | serve (r : R)
  | fail (r : R)
  | pop (r : R)
  | remove (r : R)
  | drain (r : R)
  | delete (r : R)
  | lookup (p : P) (msgid : M)
  | push (p : P) (token : T)

namespace Hoses

variable {M R P T : Type} (s : Hoses M R P T)

/-- No client has come yet. -/
def init : Hoses M R P T :=
  ⟨fun _ => none, fun _ => [], 0, fun _ => false, fun _ => .idle, fun _ => none, false⟩

def setConsumer [DecidableEq R] (r : R) (phase : Consumer M) : Hoses M R P T :=
  { s with consumer := Function.update s.consumer r phase }

@[simp]
theorem setConsumer_self [DecidableEq R] {r : R} {phase : Consumer M} :
    (s.setConsumer r phase).consumer r = phase :=
  Function.update_self ..

theorem setConsumer_of_ne [DecidableEq R] {r r' : R} {phase : Consumer M} (hr : r' ≠ r) :
    (s.setConsumer r phase).consumer r' = s.consumer r' :=
  Function.update_of_ne hr ..

/-- A use of the queue, which has the contents `tokens` afterwards. -/
def use (q : ℕ) (tokens : List T) : Hoses M R P T :=
  { s with queues := Function.update s.queues q tokens, misused := s.misused || s.deleted q }

/-- `hoses.add(msgid)`. -/
def add [DecidableEq M] [DecidableEq R] (r : R) (msgid : M) : Hoses M R P T :=
  let (rqueue, hosemap) := s.hosemap.add s.made msgid
  { s.setConsumer r (.added msgid rqueue) with
    hosemap := hosemap
    made := s.made + if s.hosemap.get msgid = none then 1 else 0 }

def remove [DecidableEq M] [DecidableEq R] (r : R) (msgid : M) (rqueue : ℕ) : Hoses M R P T :=
  { s.setConsumer r (.draining rqueue) with hosemap := s.hosemap.remove msgid }

def delete [DecidableEq R] (r : R) (rqueue : ℕ) : Hoses M R P T :=
  { (s.use rqueue []).setConsumer r .ended with deleted := Function.update s.deleted rqueue true }

def setPusher [DecidableEq P] (p : P) (rqueue : Option ℕ) : Hoses M R P T :=
  { s with pusher := Function.update s.pusher p rqueue }

/-- The steps. A deleted queue has any contents. -/
inductive Step [DecidableEq M] [DecidableEq R] [DecidableEq P] :
    Hoses M R P T → HoseEvent M R P T → Hoses M R P T → Prop
  | get {s : Hoses M R P T} {r : R} {msgid : M} (h : s.consumer r = .idle) :
      Step s (.get r msgid)
        (s.setConsumer r (if s.hosemap.get msgid = none then .checked msgid else .ended))
  | add {s : Hoses M R P T} {r : R} {msgid : M} (h : s.consumer r = .checked msgid) :
      Step s (.add r) (s.add r msgid)
  | serve {s : Hoses M R P T} {r : R} {msgid : M} {q : ℕ} (h : s.consumer r = .added msgid q) :
      Step s (.serve r) (s.setConsumer r (.serving msgid q))
  /-- The client cannot be told; the thread ends before it has a `release_rqueue_t`. -/
  | fail {s : Hoses M R P T} {r : R} {msgid : M} {q : ℕ} (h : s.consumer r = .added msgid q) :
      Step s (.fail r) (s.setConsumer r .ended)
  | pop {s : Hoses M R P T} {r : R} {msgid : M} {q : ℕ} {token : T} {tokens : List T}
      (h : s.consumer r = .serving msgid q) (hq : s.deleted q = true ∨ s.queues q = token :: tokens) :
      Step s (.pop r) (s.use q tokens)
  | remove {s : Hoses M R P T} {r : R} {msgid : M} {q : ℕ} (h : s.consumer r = .serving msgid q) :
      Step s (.remove r) (s.remove r msgid q)
  | drain {s : Hoses M R P T} {r : R} {q : ℕ} {token : T} {tokens : List T}
      (h : s.consumer r = .draining q) (hq : s.deleted q = true ∨ s.queues q = token :: tokens) :
      Step s (.drain r) (s.use q tokens)
  | delete {s : Hoses M R P T} {r : R} {q : ℕ} (h : s.consumer r = .draining q)
      (hq : s.deleted q = true ∨ s.queues q = []) : Step s (.delete r) (s.delete r q)
  | lookup {s : Hoses M R P T} {p : P} {msgid : M} (h : s.pusher p = none) :
      Step s (.lookup p msgid) (s.setPusher p (s.hosemap.get msgid))
  | push {s : Hoses M R P T} {p : P} {token : T} {q : ℕ} (h : s.pusher p = some q) :
      Step s (.push p token) ((s.use q (s.queues q ++ [token])).setPusher p none)

/-- **One consumer.** At most one thread serves a message id. While it does, the id is in the map,
so that a registration is refused. No deleted queue has been used. -/
structure OneConsumer (s : Hoses M R P T) : Prop where
  unique : ∀ r r' msgid q q', (s.consumer r).registered = some (msgid, q) →
    (s.consumer r').registered = some (msgid, q') → r = r'
  refused : ∀ r msgid q, (s.consumer r).registered = some (msgid, q) →
    s.hosemap.get msgid ≠ none
  unused : s.misused = false

/-- The step takes neither of the branches that go wrong: a thread that adds its id after a check
finds no queue in the map, and a thread that deletes a queue finds no thread between its `get` of
this queue and its `push`. -/
def Orderly (s : Hoses M R P T) : HoseEvent M R P T → Prop
  | .add r => ∀ msgid, s.consumer r = .checked msgid → s.hosemap.get msgid = none
  | .delete r => ∀ q, s.consumer r = .draining q → ∀ p, s.pusher p ≠ some q
  | _ => True

/-! ### What holds after orderly steps -/

variable {s}

/-- A thread or the map has the queue. -/
def Refers (s : Hoses M R P T) (q : ℕ) : Prop :=
  (∃ r, (s.consumer r).rqueue = some q) ∨ (∃ msgid, s.hosemap msgid = some q) ∨
    ∃ p, s.pusher p = some q

structure Invariant (s : Hoses M R P T) : Prop where
  registered : ∀ r msgid q, (s.consumer r).registered = some (msgid, q) →
    s.hosemap msgid = some q
  owner : ∀ r r' q, (s.consumer r).rqueue = some q → (s.consumer r').rqueue = some q → r = r'
  key : ∀ msgid msgid' q, s.hosemap msgid = some q → s.hosemap msgid' = some q → msgid = msgid'
  draining : ∀ r q, s.consumer r = .draining q → ∀ msgid, s.hosemap msgid ≠ some q
  refers : ∀ q, s.Refers q → q < s.made ∧ s.deleted q = false
  deleted : ∀ q, s.deleted q = true → q < s.made
  unused : s.misused = false

namespace Invariant

theorem at_init : (init : Hoses M R P T).Invariant where
  registered := nofun
  owner := nofun
  key := nofun
  draining := nofun
  refers q := by rintro (⟨r, h⟩ | ⟨m, h⟩ | ⟨p, h⟩) <;> cases h
  deleted := nofun
  unused := rfl

variable (hinv : s.Invariant)
include hinv

/-- A thread goes on without a queue, or with one that exists and that no other thread has. -/
private theorem setConsumer [DecidableEq R] {r : R} {phase : Consumer M}
    (hregistered : ∀ msgid q, phase.registered = some (msgid, q) → s.hosemap msgid = some q)
    (hrqueue : ∀ q, phase.rqueue = some q → (q < s.made ∧ s.deleted q = false) ∧
      ∀ r' ≠ r, (s.consumer r').rqueue ≠ some q)
    (hdraining : ∀ q, phase = .draining q → ∀ msgid, s.hosemap msgid ≠ some q) :
    (s.setConsumer r phase).Invariant where
  registered := (Function.forall_update_iff s.consumer fun _ c => ∀ msgid q,
    c.registered = some (msgid, q) → s.hosemap msgid = some q).mpr
      ⟨hregistered, fun r' _ => hinv.registered r'⟩
  owner r₁ r₂ q h₁ h₂ := by
    by_cases hr₁ : r₁ = r <;> by_cases hr₂ : r₂ = r
    · rw [hr₁, hr₂]
    · rw [hr₁, setConsumer_self] at h₁
      rw [setConsumer_of_ne s hr₂] at h₂
      exact absurd h₂ ((hrqueue q h₁).2 r₂ hr₂)
    · rw [hr₂, setConsumer_self] at h₂
      rw [setConsumer_of_ne s hr₁] at h₁
      exact absurd h₁ ((hrqueue q h₂).2 r₁ hr₁)
    · rw [setConsumer_of_ne s hr₁] at h₁
      rw [setConsumer_of_ne s hr₂] at h₂
      exact hinv.owner r₁ r₂ q h₁ h₂
  key := hinv.key
  draining := (Function.forall_update_iff s.consumer fun _ c => ∀ q,
    c = .draining q → ∀ msgid, s.hosemap msgid ≠ some q).mpr
      ⟨hdraining, fun r' _ => hinv.draining r'⟩
  refers q := by
    rintro (⟨r', h⟩ | h)
    · exact (Function.forall_update_iff s.consumer fun _ c => c.rqueue = some q → q < s.made ∧
        s.deleted q = false).mpr
          ⟨fun e => (hrqueue q e).1, fun r' _ e => hinv.refers q (Or.inl ⟨r', e⟩)⟩ r' h
    · exact hinv.refers q (Or.inr h)
  deleted := hinv.deleted
  unused := hinv.unused

/-- A thread ends, or goes on without a queue. -/
private theorem release [DecidableEq R] {r : R} {phase : Consumer M}
    (hphase : phase.rqueue = none) : (s.setConsumer r phase).Invariant := by
  refine hinv.setConsumer (fun msgid q h => ?_) (fun q h => ?_) fun q h => ?_
  · cases phase <;> cases h <;> cases hphase
  · rw [hphase] at h
    cases h
  · rw [h] at hphase
    cases hphase

/-- A queue that has not been deleted is used. -/
theorem use {q : ℕ} (hq : s.deleted q = false) (tokens : List T) :
    (s.use q tokens).Invariant :=
  ⟨hinv.registered, hinv.owner, hinv.key, hinv.draining, hinv.refers, hinv.deleted, by
    rw [Hoses.use, hinv.unused, hq]
    rfl⟩

/-- A thread that pushes gets a queue of the map, or gives it up. -/
theorem setPusher [DecidableEq P] {p : P} {rqueue : Option ℕ}
    (h : ∀ q, rqueue = some q → s.Refers q) : (s.setPusher p rqueue).Invariant := by
  refine ⟨hinv.registered, hinv.owner, hinv.key, hinv.draining, fun q hq => ?_, hinv.deleted,
    hinv.unused⟩
  rcases hq with hq | hq | ⟨p', hq⟩
  · exact hinv.refers q (Or.inl hq)
  · exact hinv.refers q (Or.inr (Or.inl hq))
  · refine (Function.forall_update_iff s.pusher fun _ o => o = some q → q < s.made ∧
      s.deleted q = false).mpr ⟨fun e => hinv.refers q (h q e), fun p' _ e => ?_⟩ p' hq
    exact hinv.refers q (Or.inr (Or.inr ⟨p', e⟩))

/-- A new queue comes into the map. -/
private theorem insert [DecidableEq M] {msgid : M} (hnone : s.hosemap msgid = none) :
    { s with hosemap := Function.update s.hosemap msgid (some s.made), made := s.made + 1 :
      Hoses M R P T }.Invariant := by
  -- nobody has the new queue
  have hnew : ¬s.Refers s.made := fun h => Nat.lt_irrefl _ (hinv.refers _ h).1
  have hmap {msgid' : M} {q : ℕ}
      (h : Function.update s.hosemap msgid (some s.made) msgid' = some q) :
      msgid' = msgid ∧ q = s.made ∨ s.hosemap msgid' = some q := by
    by_cases hm : msgid' = msgid
    · subst hm
      rw [Function.update_self, Option.some.injEq] at h
      exact Or.inl ⟨rfl, h.symm⟩
    · rw [Function.update_of_ne hm] at h
      exact Or.inr h
  refine ⟨fun r m q h => ?_, hinv.owner, fun m m' q h h' => ?_, fun r q h m hm => ?_,
    fun q hq => ?_, fun q hq => Nat.lt_succ_of_lt (hinv.deleted q hq), hinv.unused⟩
  · have hold := hinv.registered r m q h
    have hm : m ≠ msgid := fun e => by
      rw [e, hnone] at hold
      cases hold
    exact (Function.update_of_ne hm ..).trans hold
  · rcases hmap h with ⟨rfl, rfl⟩ | hold <;> rcases hmap h' with ⟨rfl, hq⟩ | hold'
    · rfl
    · exact absurd (Or.inr (Or.inl ⟨m', hold'⟩)) hnew
    · exact absurd (Or.inr (Or.inl ⟨m, hq ▸ hold⟩)) hnew
    · exact hinv.key m m' q hold hold'
  · rcases hmap hm with ⟨-, rfl⟩ | hold
    · exact hnew (Or.inl ⟨r, by rw [h]; rfl⟩)
    · exact hinv.draining r q h m hold
  · have hcases : s.Refers q ∨ q = s.made := by
      rcases hq with hq | ⟨m, hq⟩ | hq
      · exact Or.inl (Or.inl hq)
      · rcases hmap hq with ⟨-, rfl⟩ | hold
        · exact Or.inr rfl
        · exact Or.inl (Or.inr (Or.inl ⟨m, hold⟩))
      · exact Or.inl (Or.inr (Or.inr hq))
    rcases hcases with hq | rfl
    · obtain ⟨hlt, hdel⟩ := hinv.refers q hq
      exact ⟨Nat.lt_succ_of_lt hlt, hdel⟩
    · refine ⟨Nat.lt_succ_self _, ?_⟩
      by_contra hdel
      exact Nat.lt_irrefl _ (hinv.deleted _ (by simpa using hdel))

/-- An id that no thread has registered leaves the map. -/
private theorem erase [DecidableEq M] {msgid : M}
    (hnone : ∀ r q, (s.consumer r).registered ≠ some (msgid, q)) :
    { s with hosemap := s.hosemap.remove msgid : Hoses M R P T }.Invariant := by
  refine ⟨fun r m q h => ?_, hinv.owner, fun m m' q h h' => hinv.key m m' q
    (HoseMap.of_remove h).2 (HoseMap.of_remove h').2, fun r q h m hm => hinv.draining r q h m
    (HoseMap.of_remove hm).2, fun q hq => ?_, hinv.deleted, hinv.unused⟩
  · have hm : m ≠ msgid := fun e => hnone r q (e ▸ h)
    exact (Function.update_of_ne hm ..).trans (hinv.registered r m q h)
  · rcases hq with hq | ⟨m, hq⟩ | hq
    · exact hinv.refers q (Or.inl hq)
    · exact hinv.refers q (Or.inr (Or.inl ⟨m, (HoseMap.of_remove hq).2⟩))
    · exact hinv.refers q (Or.inr (Or.inr hq))

/-- A queue that nobody has any more is deleted. -/
private theorem setDeleted {q : ℕ} (hq : q < s.made) (hnot : ¬s.Refers q) :
    { s with deleted := Function.update s.deleted q true : Hoses M R P T }.Invariant := by
  refine ⟨hinv.registered, hinv.owner, hinv.key, hinv.draining, fun q' hq' => ?_,
    fun q' hq' => ?_, hinv.unused⟩
  · have hne : q' ≠ q := fun e => hnot (e ▸ hq')
    exact ⟨(hinv.refers q' hq').1, (Function.update_of_ne hne ..).trans (hinv.refers q' hq').2⟩
  · by_cases hne : q' = q
    · rwa [hne]
    · exact hinv.deleted q' ((Function.update_of_ne hne ..).symm.trans hq')

/-! ### The steps -/

/-- A thread adds an id that is not in the map. -/
private theorem add [DecidableEq M] [DecidableEq R] {r : R} {msgid : M}
    (hnone : s.hosemap msgid = none) : (s.add r msgid).Invariant := by
  have hadd : s.add r msgid = Hoses.setConsumer { s with
      hosemap := Function.update s.hosemap msgid (some s.made), made := s.made + 1 } r
      (.added msgid s.made) := by
    rw [Hoses.add, HoseMap.add, HoseMap.get, hnone, if_pos rfl]
    rfl
  rw [hadd]
  refine (hinv.insert hnone).setConsumer ?_ (fun q hq => ⟨?_, fun r' _ h => ?_⟩) nofun
  · rintro _ _ ⟨⟩
    exact Function.update_self ..
  · exact (hinv.insert hnone).refers q (Or.inr (Or.inl ⟨msgid, by cases hq; simp⟩))
  · cases hq
    exact Nat.lt_irrefl _ (hinv.refers _ (Or.inl ⟨r', h⟩)).1

/-- A thread removes its id. -/
private theorem remove [DecidableEq M] [DecidableEq R] {r : R} {msgid : M} {q : ℕ}
    (h : s.consumer r = .serving msgid q) : (s.remove r msgid q).Invariant := by
  have hqueue : (s.consumer r).rqueue = some q := by rw [h]; rfl
  have hmap : s.hosemap msgid = some q := hinv.registered r msgid q (by rw [h]; rfl)
  have hends : s.remove r msgid q = Hoses.setConsumer { s.setConsumer r .ended with
      hosemap := s.hosemap.remove msgid } r (.draining q) := by
    simp [Hoses.remove, Hoses.setConsumer]
  -- the thread gives the queue up, the id leaves the map, and the thread takes the queue back
  have hleft : Hoses.Invariant { s.setConsumer r .ended with
      hosemap := s.hosemap.remove msgid } := by
    refine (hinv.release rfl).erase fun r' q' hreg => ?_
    by_cases hr : r' = r
    · rw [hr, setConsumer_self] at hreg
      cases hreg
    · rw [setConsumer_of_ne s hr] at hreg
      have hq : q' = q := Option.some.inj ((hinv.registered r' msgid q' hreg).symm.trans hmap)
      refine hr (hinv.owner r' r q ?_ hqueue)
      cases hc : s.consumer r' <;> rw [hc] at hreg <;> cases hreg <;> rw [← hq] <;> rfl
  rw [hends]
  refine hleft.setConsumer nofun (fun q' hq' => ?_) fun q' hq' m hm => ?_
  · cases hq'
    refine ⟨hinv.refers q (Or.inl ⟨r, hqueue⟩), fun r' hr e => ?_⟩
    rw [setConsumer_of_ne s hr] at e
    exact hr (hinv.owner r' r q e hqueue)
  · cases hq'
    obtain ⟨hne, hold⟩ := HoseMap.of_remove hm
    exact hne (hinv.key m msgid q hold hmap)

/-- A thread deletes its queue, which no other thread has. -/
private theorem delete [DecidableEq R] {r : R} {q : ℕ} (h : s.consumer r = .draining q)
    (hpusher : ∀ p, s.pusher p ≠ some q) : (s.delete r q).Invariant := by
  have hqueue : (s.consumer r).rqueue = some q := by rw [h]; rfl
  obtain ⟨hlt, halive⟩ := hinv.refers q (Or.inl ⟨r, hqueue⟩)
  refine ((hinv.use halive []).release rfl).setDeleted hlt ?_
  rintro (⟨r', hr'⟩ | ⟨m, hm⟩ | ⟨p, hp⟩)
  · by_cases hr : r' = r
    · rw [hr, setConsumer_self] at hr'
      cases hr'
    · rw [setConsumer_of_ne _ hr] at hr'
      exact hr (hinv.owner r' r q hr' hqueue)
  · exact hinv.draining r q h m hm
  · exact hpusher p hp

/-- Every orderly step keeps the invariant. -/
theorem step [DecidableEq M] [DecidableEq R] [DecidableEq P] {s' : Hoses M R P T}
    {a : HoseEvent M R P T} (horderly : s.Orderly a) (hstep : Step s a s') : s'.Invariant := by
  have halive {r : R} {q : ℕ} (h : (s.consumer r).rqueue = some q) : s.deleted q = false :=
    (hinv.refers q (Or.inl ⟨r, h⟩)).2
  cases hstep with
  | get h =>
    refine hinv.release ?_
    split <;> rfl
  | add h => exact hinv.add (horderly _ h)
  | @serve r msgid q h =>
    have hqueue : (s.consumer r).rqueue = some q := by rw [h]; rfl
    refine hinv.setConsumer ?_ (fun q' hq' => ?_) nofun
    · rintro _ _ ⟨⟩
      exact hinv.registered r msgid q (by rw [h]; rfl)
    · cases hq'
      exact ⟨hinv.refers q (Or.inl ⟨r, hqueue⟩), fun r' hr e => hr (hinv.owner r' r q e hqueue)⟩
  | fail h => exact hinv.release rfl
  | pop h => exact hinv.use (halive (by rw [h]; rfl)) _
  | remove h => exact hinv.remove h
  | drain h => exact hinv.use (halive (by rw [h]; rfl)) _
  | delete h => exact hinv.delete h (horderly _ h)
  | lookup h => exact hinv.setPusher fun q hq => Or.inr (Or.inl ⟨_, hq⟩)
  | push h =>
    exact (hinv.use (hinv.refers _ (Or.inr (Or.inr ⟨_, h⟩))).2 _).setPusher nofun

/-- What the invariant says about the consumers. -/
theorem oneConsumer : s.OneConsumer where
  unique r r' msgid q q' h h' := by
    have hq : q = q' := Option.some.inj
      ((hinv.registered r msgid q h).symm.trans (hinv.registered r' msgid q' h'))
    have hqueue {r : R} (h : (s.consumer r).registered = some (msgid, q)) :
        (s.consumer r).rqueue = some q := by
      cases hc : s.consumer r <;> rw [hc] at h <;> cases h <;> rfl
    exact hinv.owner r r' q (hqueue h) (hqueue (hq ▸ h'))
  refused r msgid q h hnone := by
    have hmap := hinv.registered r msgid q h
    rw [HoseMap.get, hmap] at hnone
    cases hnone
  unused := hinv.unused

end Invariant

end Hoses

/-- **One consumer.** In every run in which no thread adds an id that came into the map after its
check, and no thread deletes a queue that another one has looked up and not pushed on yet, a message
id has at most one consumer, and no deleted queue is used. -/
theorem oneConsumer_of_orderly {M R P T : Type} [DecidableEq M] [DecidableEq R] [DecidableEq P]
    {as : List (HoseEvent M R P T)} {s : Hoses M R P T}
    (hrun : Steps (fun s a s' => s.Orderly a ∧ Hoses.Step s a s') .init as s) : s.OneConsumer :=
  (hrun.invariant (fun _ _ _ hinv ⟨horderly, hstep⟩ => hinv.step horderly hstep)
    Hoses.Invariant.at_init).oneConsumer

/-- A client registers an id, another one is refused, and a token is pushed; then the client goes
away. -/
theorem oneConsumer_of_orderly_small : ∃ s : Hoses String ℕ ℕ ℕ,
    s.consumer 0 = .ended ∧ s.consumer 1 = .ended ∧ s.deleted 0 = true ∧ s.OneConsumer := by
  have hrun : Steps (fun s a s' => s.Orderly a ∧ Hoses.Step s a s') (.init : Hoses String ℕ ℕ ℕ)
      [.get 0 "id", .add 0, .serve 0, .get 1 "id", .lookup 0 "id", .push 0 7, .remove 0, .drain 0,
        .delete 0] _ :=
    .cons ⟨trivial, .get rfl⟩ <| .cons ⟨fun _ h => by cases h; rfl, .add rfl⟩ <|
    .cons ⟨trivial, .serve rfl⟩ <| .cons ⟨trivial, .get rfl⟩ <| .cons ⟨trivial, .lookup rfl⟩ <|
    .cons ⟨trivial, .push rfl⟩ <| .cons ⟨trivial, .remove rfl⟩ <|
    .cons ⟨trivial, .drain rfl (.inr rfl)⟩ <|
    .cons ⟨fun _ _ p hp => (by cases p <;> cases hp), .delete rfl (.inr rfl)⟩ .nil
  exact ⟨_, rfl, rfl, rfl, oneConsumer_of_orderly hrun⟩

/-- Two threads check an id before either of them adds it, and both serve it. A queue is deleted
between the lookup of another thread and its push. -/
theorem oneConsumer_false_of_races :
    (∃ s : Hoses String ℕ ℕ ℕ, Steps Hoses.Step .init
        [.get 0 "id", .get 1 "id", .add 0, .add 1, .serve 0, .serve 1] s ∧
      s.consumer 0 = .serving "id" 0 ∧ s.consumer 1 = .serving "id" 0 ∧ ¬s.OneConsumer) ∧
    ∃ s : Hoses String ℕ ℕ ℕ, Steps Hoses.Step .init
        [.get 0 "id", .add 0, .serve 0, .lookup 0 "id", .remove 0, .delete 0, .push 0 7] s ∧
      s.misused = true ∧ ¬s.OneConsumer := by
  constructor
  · refine ⟨_, .cons (.get rfl) <| .cons (.get rfl) <| .cons (.add rfl) <| .cons (.add rfl) <|
      .cons (.serve rfl) <| .cons (.serve rfl) .nil, rfl, rfl, fun h => ?_⟩
    exact absurd (h.unique 0 1 "id" 0 0 rfl rfl) (by decide)
  · refine ⟨_, .cons (.get rfl) <| .cons (.add rfl) <| .cons (.serve rfl) <|
      .cons (.lookup rfl) <| .cons (.remove rfl) <| .cons (.delete rfl (.inr rfl)) <|
      .cons (.push rfl) .nil, rfl, fun h => ?_⟩
    exact absurd h.unused (by decide)

end Nynn
