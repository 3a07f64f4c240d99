import Nynn.Daemon.Node
import Nynn.Library.Monitor

/-!
# The calls that wait

A `concurrent_queue` makes `pop` wait as long as it is empty, and `shm_manager_t` makes `require`
wait as long as all places are taken and `release` as long as none is. Both are monitors: their calls
are atomic, and no wake-up is lost.

Source: `concurrent_queue.h`, `shm_manager_t` in `nynn_daemon.h`, `nynn_shmat` and `nynn_shmdt` in
`nynn.cpp`.

## Main definitions

* `Nynn.concurrentQueue`: `concurrent_queue`.
* `Nynn.shmManager`: `shm_manager_t`.

## Main results

* `Nynn.concurrentQueue_fifo`: what is popped is what was pushed, in order and once.
* `Nynn.concurrentQueue_wakes`: no `pop` waits for ever when there is an item.
* `Nynn.shmManager_wakes`: nobody waits for ever when there is a place.
-/

namespace Nynn

open Transition Monitor

/-! ### `concurrent_queue` -/

inductive QueueCall (A : Type)
  | pop
  | push (item : A)
  | empty
  deriving DecidableEq

/-- What a call returns. -/
inductive QueueReturn (A : Type)
  /-- `lst.front()`, which is `none` when there is no item. -/
  | pop (item : Option A)
  | push
  | empty (ret : Bool)
  deriving DecidableEq

/-- `concurrent_queue`, with the condition variable `notempty`. -/
def concurrentQueue (A : Type) : Monitor (List A) (QueueCall A) (QueueReturn A) Unit where
  guard
    | .pop, lst => !lst.isEmpty
    | _, _ => true
  change
    | .pop, lst => (lst.tail, .pop lst.head?)
    | .push item, lst => (lst ++ [item], .push)
    | .empty, lst => (lst, .empty lst.isEmpty)
  waitsOn _ := ()
  broadcasts
    | .push _ => [()]
    | _ => []

/-- The item that a call pushes. -/
def QueueCall.pushed {A : Type} : QueueCall A → Option A
  | pop | empty => none
  | push item => some item

/-- The item that a call has popped. -/
def QueueReturn.popped {A : Type} : QueueReturn A → Option A
  | pop item => item
  | push | empty _ => none

section Queue

variable {A T : Type} [DecidableEq T] {lst : List A} {log : List (QueueCall A × QueueReturn A)}

theorem concurrentQueue_signals : (concurrentQueue A).Signals := by
  intro o o' lst hfalse _ htrue
  cases o with
  | pop =>
    cases o' with
    | push item => exact List.mem_singleton_self _
    | _ => simp_all [concurrentQueue]
  | _ => cases hfalse

/-- Calls one after another pop the items in the order in which they were pushed. -/
theorem pushed_of_replays (h : (concurrentQueue A).Replays [] log lst) :
    log.filterMap (·.1.pushed) = log.filterMap (·.2.popped) ++ lst := by
  induction h with
  | nil => rfl
  | @snoc log lst o h hguard ih =>
    rw [List.filterMap_append, List.filterMap_append, ih]
    cases o with
    | pop =>
      cases lst with
      | nil => cases hguard
      | cons a lst => simp [concurrentQueue, QueueCall.pushed, QueueReturn.popped]
    | _ => simp [concurrentQueue, QueueCall.pushed, QueueReturn.popped]

theorem exists_item_of_replays (h : (concurrentQueue A).Replays [] log lst) {r : QueueReturn A}
    (hr : (.pop, r) ∈ log) : ∃ item, r = .pop (some item) := by
  induction h with
  | nil => cases hr
  | @snoc log lst o h hguard ih =>
    rcases List.mem_append.mp hr with hmem | hmem
    · exact ih hmem
    · obtain ⟨rfl, rfl⟩ := Prod.mk.inj (List.mem_singleton.mp hmem)
      cases lst with
      | nil => cases hguard
      | cons item lst => exact ⟨item, rfl⟩

variable {s₀ s s' : Monitor.State (List A) (QueueCall A) (QueueReturn A) T}
  {es₀ es : List (Event T (QueueCall A))}

/-- **First in, first out.** However the threads interleave, the items that were popped are the first
ones that were pushed, in this order, each by one call, and the others are in the queue. The order is
that of the threads, and calls that have happened stay in front of the later ones; what a call
returns is what it has popped. -/
theorem concurrentQueue_fifo (hrun₀ : Steps (concurrentQueue A).Step (.init []) es₀ s₀)
    (hrun : Steps (concurrentQueue A).Step s₀ es s) :
    s.log.filterMap (·.2.1.pushed) = s.log.filterMap (·.2.2.popped) ++ s.data ∧
      (∀ t r, (t, .pop, r) ∈ s.log → ∃ item, r = .pop (some item)) ∧ s₀.log <+: s.log ∧
        ∀ t, byThread t s.returned <+: byThread t s.log ∧
          (byThread t s.log).map (·.1) <+: byThread t s.called := by
  have hrun' := hrun₀.append hrun
  have hreplays := replays_of_run hrun'
  have haccounts := accounts_of_run hrun'
  refine ⟨?_, fun t r hr => exists_item_of_replays hreplays (List.mem_map_of_mem hr),
    log_isPrefix hrun, fun t => ⟨?_, ?_⟩⟩
  · have hpushed := pushed_of_replays hreplays
    rwa [List.filterMap_map, List.filterMap_map] at hpushed
  · rw [haccounts.log]
    exact List.prefix_append _ _
  · rw [haccounts.called]
    exact List.prefix_append _ _

/-- A `pop` that sleeps, and a `push` that was called. -/
def popSleeps : List (Event Bool (QueueCall ℕ)) :=
  [.call false .pop, .acquire false, .sleep false, .call true (.push 5)]

/-- The `push` wakes up the `pop`. -/
def pushWakes : List (Event Bool (QueueCall ℕ)) :=
  [.acquire true, .change true, .broadcast true, .release true, .acquire false, .change false,
    .broadcast false, .release false]

theorem exists_pushWakes : ∃ s₀ s, Steps (concurrentQueue ℕ).Step (.init []) popSleeps s₀ ∧
    Steps (concurrentQueue ℕ).Step s₀ pushWakes s ∧
      s.returned = [(true, .push 5, .push), (false, .pop, .pop (some 5))] :=
  ⟨_, _, .cons (.call rfl) (.cons (.acquire rfl rfl) (.cons (.sleep rfl rfl)
    (.cons (.call rfl) .nil))), .cons (.acquire rfl rfl) (.cons (.change rfl rfl)
    (.cons (.broadcast rfl) (.cons (.release rfl) (.cons (.acquire rfl rfl)
    (.cons (.change rfl rfl) (.cons (.broadcast rfl) (.cons (.release rfl) .nil))))))), rfl⟩

theorem concurrentQueue_fifo_small :
    ∃ s : Monitor.State (List ℕ) (QueueCall ℕ) (QueueReturn ℕ) Bool,
      s.returned = [(true, .push 5, .push), (false, .pop, .pop (some 5))] ∧
        s.log.filterMap (·.2.1.pushed) = s.log.filterMap (·.2.2.popped) ++ s.data := by
  obtain ⟨s₀, s, hrun₀, hrun, hreturned⟩ := exists_pushWakes
  exact ⟨s, hreturned, (concurrentQueue_fifo hrun₀ hrun).1⟩

/-- **No lost wake-ups.** Without new calls the threads stop, whatever the order of their steps, and
then who has not returned waits in `pop` for an item, and the queue is empty. -/
theorem concurrentQueue_wakes [Fintype T]
    (hrun₀ : Steps (concurrentQueue A).Step (.init []) es₀ s)
    (hrun : Steps (concurrentQueue A).Step s es s') (hes : ∀ e ∈ es, e.goesOn = true) :
    es.length ≤ Fintype.card T * (2 * (2 * Fintype.card T + 2) + 2) ∧
      ((∀ e s'', e.goesOn = true → ¬(concurrentQueue A).Step s' e s'') →
        ∀ t, s'.phase t = .idle ∨ s'.phase t = .asleep .pop ∧ s'.data = []) := by
  obtain ⟨hlen, hquiet⟩ := (invariant_of_run concurrentQueue_signals hrun₀).stops
    concurrentQueue_signals hrun hes
  refine ⟨hlen, fun hstuck t => ?_⟩
  rcases hquiet hstuck t with hidle | ⟨o, hasleep, hguard⟩
  · exact .inl hidle
  · cases o with
    | pop => exact .inr ⟨hasleep, by simpa [concurrentQueue] using hguard⟩
    | _ => cases hguard

theorem concurrentQueue_wakes_small : ∃ s₀ s : Monitor.State (List ℕ) (QueueCall ℕ) (QueueReturn ℕ) Bool,
    Steps (concurrentQueue ℕ).Step s₀ pushWakes s ∧
      pushWakes.length ≤ Fintype.card Bool * (2 * (2 * Fintype.card Bool + 2) + 2) := by
  obtain ⟨s₀, s, hrun₀, hrun, -⟩ := exists_pushWakes
  exact ⟨s₀, s, hrun, (concurrentQueue_wakes hrun₀ hrun (by decide)).1⟩

end Queue

/-! ### `shm_manager_t` -/

/-- `nynn_shmat`, which makes a new segment without `shmid`. It returns the segment, or `none` for
`-1`; the system may refuse. -/
def nynnShmat (shm : SharedMemory) (shmid : Option ℕ) (size : ℕ) (removal refused : Bool) :
    SharedMemory × Option ℕ :=
  if refused then (shm, none) else
  match shmid with
  | none =>
    let shm' := shm.shmget (Reader.segment size)
    (if removal then shm'.rmid shm.made else shm', some shm.made)
  | some i =>
    if shm.Exists i then (if removal then (shm.shmat i).rmid i else shm.shmat i, some i)
    else (shm, none)

inductive ShmCall
  | require (shmid : Option ℕ) (size : ℕ) (removal refused : Bool)
  /-- The address is that of a segment. -/
  | release (shmid : ℕ)
  deriving DecidableEq

inductive ShmReturn
  | require (retval : Option ℕ)
  | release
  deriving DecidableEq

/-- The condition variables of `shm_manager_t`. -/
inductive ShmCondition
  | notempty
  | notfull
  deriving DecidableEq

/-- `shm_manager_t` with `shmseg` places. The data are `count` and the segments. -/
def shmManager (shmseg : ℕ) : Monitor (ℕ × SharedMemory) ShmCall ShmReturn ShmCondition where
  guard
    | .require .., (count, _) => count != shmseg
    | .release _, (count, _) => count != 0
  change
    | .require shmid size removal refused, (count, shm) =>
      let (shm', retval) := nynnShmat shm shmid size removal refused
      ((count + 1, shm'), .require retval)
    | .release shmid, (count, shm) => ((count - 1, shm.shmdt shmid), .release)
  waitsOn
    | .require .. => .notfull
    | .release _ => .notempty
  broadcasts
    | .require .. => [.notempty]
    | .release _ => [.notfull]

def ShmCall.isRequire : ShmCall → Bool
  | require .. => true
  | release _ => false

section ShmManager

variable {T : Type} [DecidableEq T] {shmseg : ℕ} {shm : SharedMemory} {d : ℕ × SharedMemory}
  {log : List (ShmCall × ShmReturn)}

theorem shmManager_signals : (shmManager shmseg).Signals := by
  intro o o' d hfalse htrue hafter
  cases o <;> cases o' <;> simp_all [shmManager]

/-- As many places are taken as calls of `require` were not followed by one of `release`. -/
theorem count_of_replays (h : (shmManager shmseg).Replays (0, shm) log d) :
    d.1 ≤ shmseg ∧ log.countP (·.1.isRequire) = log.countP (!·.1.isRequire) + d.1 := by
  induction h with
  | nil => simp
  | @snoc log d o h hguard ih =>
    obtain ⟨hle, hcount⟩ := ih
    rw [List.countP_append, List.countP_append, hcount]
    cases o with
    | require shmid size removal refused =>
      have hne : d.1 ≠ shmseg := bne_iff_ne.mp hguard
      simp only [shmManager, ShmCall.isRequire, List.countP_singleton, Bool.not_true, if_true,
        Bool.false_eq_true, if_false]
      omega
    | release shmid =>
      have hne : d.1 ≠ 0 := bne_iff_ne.mp hguard
      simp only [shmManager, ShmCall.isRequire, List.countP_singleton, Bool.not_false, if_true,
        Bool.false_eq_true, if_false]
      omega

variable {s s' : Monitor.State (ℕ × SharedMemory) ShmCall ShmReturn T}
  {es₀ es : List (Event T ShmCall)}

/-- **No lost wake-ups.** However the threads interleave, at most `shmseg` places are taken. Without
new calls the threads stop, and then who has not returned waits in `require` and every place is
taken, or in `release` and no place is. -/
theorem shmManager_wakes [Fintype T]
    (hrun₀ : Steps (shmManager shmseg).Step (.init (0, shm)) es₀ s)
    (hrun : Steps (shmManager shmseg).Step s es s') (hes : ∀ e ∈ es, e.goesOn = true) :
    s'.data.1 ≤ shmseg ∧
      s'.log.countP (·.2.1.isRequire) = s'.log.countP (!·.2.1.isRequire) + s'.data.1 ∧
      es.length ≤ Fintype.card T * (2 * (2 * Fintype.card T + 2) + 2) ∧
      ((∀ e s'', e.goesOn = true → ¬(shmManager shmseg).Step s' e s'') → ∀ t,
        s'.phase t = .idle ∨
          ∃ o, s'.phase t = .asleep o ∧ s'.data.1 = if o.isRequire then shmseg else 0) := by
  have hcount := count_of_replays (replays_of_run (hrun₀.append hrun))
  rw [List.countP_map, List.countP_map] at hcount
  obtain ⟨hlen, hquiet⟩ := (invariant_of_run shmManager_signals hrun₀).stops
    shmManager_signals hrun hes
  refine ⟨hcount.1, hcount.2, hlen, fun hstuck t => ?_⟩
  rcases hquiet hstuck t with hidle | ⟨o, hasleep, hguard⟩
  · exact .inl hidle
  · refine .inr ⟨o, hasleep, ?_⟩
    cases o <;> simpa [shmManager, ShmCall.isRequire] using hguard

/-- With one place, a second `require` sleeps until the place is released. -/
theorem shmManager_wakes_small :
    ∃ s s' : Monitor.State (ℕ × SharedMemory) ShmCall ShmReturn Bool,
      s.phase true = .asleep (.require none 8 false false) ∧
        s'.returned = [(false, .require none 8 true false, .require (some 0)),
          (false, .release 0, .release),
          (true, .require none 8 false false, .require (some 1))] ∧ s'.data.1 ≤ 1 := by
  have hrun₀ : ∃ s, Steps (shmManager 1).Step (.init (0, .init))
      [.call false (.require none 8 true false), .acquire false, .change false, .broadcast false,
        .release false, .call true (.require none 8 false false), .acquire true, .sleep true,
        .call false (.release 0)] s ∧ s.phase true = .asleep (.require none 8 false false) ∧
      ∃ s', Steps (shmManager 1).Step s [.acquire false, .change false, .broadcast false,
        .release false, .acquire true, .change true, .broadcast true, .release true] s' ∧
      s'.returned = [(false, .require none 8 true false, .require (some 0)),
          (false, .release 0, .release),
          (true, .require none 8 false false, .require (some 1))] :=
    ⟨_, .cons (.call rfl) (.cons (.acquire rfl rfl) (.cons (.change rfl rfl) (.cons (.broadcast rfl)
      (.cons (.release rfl) (.cons (.call rfl) (.cons (.acquire rfl rfl) (.cons (.sleep rfl rfl)
      (.cons (.call rfl) .nil)))))))), rfl, _, .cons (.acquire rfl rfl) (.cons (.change rfl rfl)
      (.cons (.broadcast rfl) (.cons (.release rfl) (.cons (.acquire rfl rfl)
      (.cons (.change rfl rfl) (.cons (.broadcast rfl) (.cons (.release rfl) .nil))))))), rfl⟩
  obtain ⟨s, hrun₀, hasleep, s', hrun, hreturned⟩ := hrun₀
  exact ⟨s, s', hasleep, hreturned, (shmManager_wakes hrun₀ hrun (by decide)).1⟩

end ShmManager

end Nynn
