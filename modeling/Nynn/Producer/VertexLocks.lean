import Nynn.Library.RWLock
import Nynn.Library.Transition
import Nynn.Storage.Types

/-!
# The locks of the vertices

A provider has `VERTEX_RWLOCK_NUM` readers–writer locks, and the lock of a vertex is the one at the
remainder of its number. The producer holds it for an update: `LockVertex` calls `lock` and later
`unlock`. An agent holds it to read.

The tests of the flags in `lock` compare before they mask. `flag&IS_NONBLOCKING==IS_NONBLOCKING` is
`flag&1`, so that an attempt to write never blocks. `LockVertex` asks for a blocking attempt and
does not look at the result. When the lock is not free, its guard lives without the lock.

Source: `lock` and `unlock` of `SubgraphSetType` in `nynn_mm_subgraph_set.h`, `LockVertex` in
`ProducerDaemon.cpp`, `Graph::lock` in `nynn_mm_graph.h`.

## Main definitions

* `Nynn.lockAttempt`: what `lock` does for its flags.
* `Nynn.VertexLocks`, `Nynn.LockStep`: the locks and the callers of one provider, and their steps.
* `Nynn.VertexLocks.Exclusive`: mutual exclusion.

## Main results

* `Nynn.vertexLocks_exclusive_iff`: when the updates of a vertex exclude each other.
-/

namespace Nynn

open Transition

/-! ### The flags -/

def isWritable : UInt32 := 1

def isReadable : UInt32 := 0

def isNonblocking : UInt32 := 2

def isBlocking : UInt32 := 0

/-- The call that `lock` makes. In the source `==` binds tighter than `&`. -/
def lockAttempt (flag : UInt32) : RWLock.Attempt :=
  if flag &&& (isWritable == isWritable).toUInt32 ≠ 0 then
    if flag &&& (isNonblocking == isNonblocking).toUInt32 ≠ 0 then .trywrlock else .wrlock
  else
    if flag &&& (isNonblocking == isNonblocking).toUInt32 ≠ 0 then .tryrdlock else .rdlock

/-- The flag of `LockVertex`. -/
def guardFlag : UInt32 := isWritable ||| isBlocking

/-- The flag of `Graph::lock`. -/
def readFlag (nonblocking : Bool) : UInt32 :=
  (if nonblocking then isNonblocking else isBlocking) ||| isReadable

/-- The guard of an update does not wait. -/
theorem lockAttempt_guardFlag : lockAttempt guardFlag = .trywrlock := by decide

/-- A reader waits, whatever it asks for. -/
theorem lockAttempt_readFlag (nonblocking : Bool) :
    lockAttempt (readFlag nonblocking) = .rdlock := by
  cases nonblocking <;> decide

/-! ### The callers and their steps -/

/-- Where a caller is: an update with a live guard, or an agent that was granted the lock. -/
inductive Phase
  | idle
  | updating (vtxno : UInt32)
  | reading (vtxno : UInt32)
  deriving DecidableEq, Repr

/-- The locks of a provider, and its callers. -/
structure VertexLocks (C : Type) where
  /-- `m_vertexRWLocks`. -/
  rwlocks : ℕ → RWLock C
  phase : C → Phase

/-- `VTXNO2RWLOCK`. -/
def vtxno2rwlock (rwlockNum : ℕ) (vtxno : UInt32) : ℕ := vtxno.toNat % rwlockNum

/-- A step of a caller. -/
inductive LockEvent (C : Type)
  | guard (c : C) (vtxno : UInt32)
  | lock (c : C) (vtxno : UInt32) (nonblocking : Bool)
  | update (c : C)
  | read (c : C)
  | unlock (c : C)

section Steps

variable {C : Type} [DecidableEq C] (rwlockNum : ℕ)

/-- The provider with one lock and one caller changed. -/
def VertexLocks.set (s : VertexLocks C) (i : ℕ) (l : RWLock C) (c : C) (ph : Phase) :
    VertexLocks C where
  rwlocks := Function.update s.rwlocks i l
  phase := Function.update s.phase c ph

/-- The steps. A guard lives whatever `lock` returns; an agent goes on when it returns `true`. -/
inductive LockStep : VertexLocks C → LockEvent C → VertexLocks C → Prop
  | guard {s : VertexLocks C} {c : C} {v : UInt32} {l : RWLock C} {granted : Bool}
      (hidle : s.phase c = .idle)
      (hcall : RWLock.Calls c (lockAttempt guardFlag) (s.rwlocks (vtxno2rwlock rwlockNum v)) l
        granted) :
      LockStep s (.guard c v) (s.set (vtxno2rwlock rwlockNum v) l c (.updating v))
  | lock {s : VertexLocks C} {c : C} {v : UInt32} {nonblocking granted : Bool} {l : RWLock C}
      (hidle : s.phase c = .idle)
      (hcall : RWLock.Calls c (lockAttempt (readFlag nonblocking))
        (s.rwlocks (vtxno2rwlock rwlockNum v)) l granted) :
      LockStep s (.lock c v nonblocking)
        (s.set (vtxno2rwlock rwlockNum v) l c (if granted then .reading v else .idle))
  | update {s : VertexLocks C} {c : C} {v : UInt32} (h : s.phase c = .updating v) :
      LockStep s (.update c) s
  | read {s : VertexLocks C} {c : C} {v : UInt32} (h : s.phase c = .reading v) :
      LockStep s (.read c) s
  | unlock {s : VertexLocks C} {c : C} {v : UInt32} {l : RWLock C}
      (h : s.phase c = .updating v ∨ s.phase c = .reading v)
      (hunlock : RWLock.Unlocks c (s.rwlocks (vtxno2rwlock rwlockNum v)) l) :
      LockStep s (.unlock c) (s.set (vtxno2rwlock rwlockNum v) l c .idle)

/-- A provider without callers. -/
def VertexLocks.init : VertexLocks C := ⟨fun _ => .unlocked, fun _ => .idle⟩

/-- **Mutual exclusion.** An update holds the lock of its vertex, and nobody else does; no other
update and no reader has a vertex with the same lock. An agent that reads holds the lock too, so
that an unlock releases the hold of its caller. -/
structure VertexLocks.Exclusive (s : VertexLocks C) : Prop where
  writer : ∀ c v, s.phase c = .updating v →
    (s.rwlocks (vtxno2rwlock rwlockNum v)).writer = some c
  alone : ∀ c v, s.phase c = .updating v → (s.rwlocks (vtxno2rwlock rwlockNum v)).readers = []
  updates : ∀ c d v w, s.phase c = .updating v → s.phase d = .updating w →
    vtxno2rwlock rwlockNum v = vtxno2rwlock rwlockNum w → c = d
  readers : ∀ c d v w, s.phase c = .updating v → s.phase d = .reading w →
    vtxno2rwlock rwlockNum v ≠ vtxno2rwlock rwlockNum w
  reader : ∀ c v, s.phase c = .reading v →
    c ∈ (s.rwlocks (vtxno2rwlock rwlockNum v)).readers

/-- A guard of an update finds the lock of its vertex free. -/
def VertexLocks.FindsFree (s : VertexLocks C) : LockEvent C → Prop
  | .guard _ v => (s.rwlocks (vtxno2rwlock rwlockNum v)).Free
  | _ => True

/-- A step in which a guard finds the lock of its vertex free. -/
def FreeStep (s : VertexLocks C) (e : LockEvent C) (s' : VertexLocks C) : Prop :=
  LockStep rwlockNum s e s' ∧ s.FindsFree rwlockNum e

/-! ### The invariant -/

/-- The locks are held by the callers that are where they hold them. -/
private structure VertexLocks.Owned (s : VertexLocks C) : Prop where
  updating : ∀ c v, s.phase c = .updating v → s.rwlocks (vtxno2rwlock rwlockNum v) = ⟨some c, []⟩
  reading : ∀ c v, s.phase c = .reading v →
    (s.rwlocks (vtxno2rwlock rwlockNum v)).writer = none ∧
      c ∈ (s.rwlocks (vtxno2rwlock rwlockNum v)).readers
  owner : ∀ i c, (s.rwlocks i).writer = some c →
    ∃ v, s.phase c = .updating v ∧ vtxno2rwlock rwlockNum v = i

namespace VertexLocks

variable {rwlockNum} {s s' : VertexLocks C} {i j : ℕ} {l : RWLock C} {c d : C} {ph : Phase}

@[simp] theorem rwlocks_set_self : (s.set i l c ph).rwlocks i = l := Function.update_self ..

@[simp] theorem phase_set_self : (s.set i l c ph).phase c = ph := Function.update_self ..

theorem rwlocks_set_of_ne (h : j ≠ i) : (s.set i l c ph).rwlocks j = s.rwlocks j :=
  Function.update_of_ne h ..

theorem phase_set_of_ne (h : d ≠ c) : (s.set i l c ph).phase d = s.phase d :=
  Function.update_of_ne h ..

omit [DecidableEq C] in
private theorem owned_init : (init : VertexLocks C).Owned rwlockNum where
  updating _ _ h := by cases h
  reading _ _ h := by cases h
  owner _ _ h := by cases h

namespace Owned

omit [DecidableEq C] in
theorem exclusive (h : s.Owned rwlockNum) : s.Exclusive rwlockNum where
  writer c v hc := by rw [h.updating c v hc]
  alone c v hc := by rw [h.updating c v hc]
  updates c d v w hc hd hvw := by
    have hlock := h.updating c v hc
    rw [hvw, h.updating d w hd] at hlock
    exact (Option.some.inj (congrArg RWLock.writer hlock)).symm
  readers c d v w hc hd hvw := by
    have hfree := (h.reading d w hd).1
    rw [← hvw, h.updating c v hc] at hfree
    cases hfree
  reader c v hc := (h.reading c v hc).2

/-- One caller moves and one lock changes: the caller holds the lock as its place says, the others
hold it as before, and the caller held no other lock for an update. -/
private theorem set (h : s.Owned rwlockNum) (hold : ∀ k, k ≠ i → (s.rwlocks k).writer ≠ some c)
    (hupd : ∀ d w, (s.set i l c ph).phase d = .updating w → vtxno2rwlock rwlockNum w = i →
      l = ⟨some d, []⟩)
    (hread : ∀ d w, (s.set i l c ph).phase d = .reading w → vtxno2rwlock rwlockNum w = i →
      l.writer = none ∧ d ∈ l.readers)
    (hph : ∀ w, ph = .updating w ∨ ph = .reading w → vtxno2rwlock rwlockNum w = i)
    (howner : ∀ d, l.writer = some d → d = c ∧ ∃ w, ph = .updating w) :
    (s.set i l c ph).Owned rwlockNum := by
  refine ⟨fun d w hd => ?_, fun d w hd => ?_, fun k d hd => ?_⟩
  · by_cases hi : vtxno2rwlock rwlockNum w = i
    · rw [hi, rwlocks_set_self, hupd d w hd hi]
    · have hdc : d ≠ c := by
        rintro rfl
        exact hi (hph w (Or.inl (phase_set_self.symm.trans hd)))
      rw [rwlocks_set_of_ne hi, h.updating d w ((phase_set_of_ne hdc).symm.trans hd)]
  · by_cases hi : vtxno2rwlock rwlockNum w = i
    · rw [hi, rwlocks_set_self]
      exact hread d w hd hi
    · have hdc : d ≠ c := by
        rintro rfl
        exact hi (hph w (Or.inr (phase_set_self.symm.trans hd)))
      rw [rwlocks_set_of_ne hi]
      exact h.reading d w ((phase_set_of_ne hdc).symm.trans hd)
  · by_cases hk : k = i
    · rw [hk, rwlocks_set_self] at hd
      obtain ⟨rfl, w, hw⟩ := howner d hd
      exact ⟨w, phase_set_self.trans hw, (hph w (Or.inl hw)).trans hk.symm⟩
    · rw [rwlocks_set_of_ne hk] at hd
      have hdc : d ≠ c := by
        rintro rfl
        exact hold k hk hd
      obtain ⟨w, hw, hwk⟩ := h.owner k d hd
      exact ⟨w, (phase_set_of_ne hdc).trans hw, hwk⟩

omit [DecidableEq C] in
private theorem writer_ne_of_idle (h : s.Owned rwlockNum) (hidle : s.phase c = .idle) (k : ℕ) :
    (s.rwlocks k).writer ≠ some c := by
  intro hc
  obtain ⟨w, hw, -⟩ := h.owner k c hc
  rw [hidle] at hw
  cases hw

/-- An idle caller is granted a free lock for an update. -/
theorem guard (h : s.Owned rwlockNum) {v : UInt32} (hidle : s.phase c = .idle)
    (hfree : (s.rwlocks (vtxno2rwlock rwlockNum v)).Free) :
    (s.set (vtxno2rwlock rwlockNum v) ⟨some c, []⟩ c (.updating v)).Owned rwlockNum := by
  refine h.set (fun k _ => h.writer_ne_of_idle hidle k) (fun d w hd hi => ?_)
    (fun d w hd hi => ?_) (fun w hw => ?_) fun d hd => ⟨(Option.some.inj hd).symm, v, rfl⟩
  · by_cases hdc : d = c
    · rw [hdc]
    · rw [phase_set_of_ne hdc] at hd
      rw [← hi, RWLock.Free, h.updating d w hd] at hfree
      cases hfree.1
  · by_cases hdc : d = c
    · rw [hdc, phase_set_self] at hd
      cases hd
    · rw [phase_set_of_ne hdc] at hd
      have hmem := (h.reading d w hd).2
      rw [hi, hfree.2] at hmem
      cases hmem
  · rcases hw with hw | hw <;> cases hw
    rfl

/-- An idle caller is granted a lock that no update holds, to read. -/
theorem lock (h : s.Owned rwlockNum) {v : UInt32} (hidle : s.phase c = .idle)
    (hfree : (s.rwlocks (vtxno2rwlock rwlockNum v)).writer = none) :
    (s.set (vtxno2rwlock rwlockNum v) ⟨none, c :: (s.rwlocks (vtxno2rwlock rwlockNum v)).readers⟩
      c (.reading v)).Owned rwlockNum := by
  refine h.set (fun k _ => h.writer_ne_of_idle hidle k) (fun d w hd hi => ?_)
    (fun d w hd hi => ⟨rfl, ?_⟩) (fun w hw => ?_) fun d hd => by cases hd
  · by_cases hdc : d = c
    · rw [hdc, phase_set_self] at hd
      cases hd
    · rw [phase_set_of_ne hdc] at hd
      rw [← hi, h.updating d w hd] at hfree
      cases hfree
  · by_cases hdc : d = c
    · rw [hdc]
      exact List.mem_cons_self
    · rw [phase_set_of_ne hdc] at hd
      exact List.mem_cons_of_mem _ (hi ▸ (h.reading d w hd).2)
  · rcases hw with hw | hw <;> cases hw
    rfl

/-- A caller gives the lock back; `l` is the lock without its hold. -/
theorem unlock (h : s.Owned rwlockNum) {v : UInt32}
    (hc : s.phase c = .updating v ∨ s.phase c = .reading v) (hw : l.writer = none)
    (hr : ∀ d, d ≠ c → d ∈ (s.rwlocks (vtxno2rwlock rwlockNum v)).readers → d ∈ l.readers) :
    (s.set (vtxno2rwlock rwlockNum v) l c .idle).Owned rwlockNum := by
  refine h.set (fun k hk hc' => ?_) (fun d w hd hi => ?_) (fun d w hd hi => ⟨hw, ?_⟩)
    (fun w hw' => ?_) fun d hd => ?_
  · obtain ⟨w, hw', hwk⟩ := h.owner k c hc'
    rcases hc with hc | hc
    · rw [hc, Phase.updating.injEq] at hw'
      exact hk (hw' ▸ hwk.symm)
    · rw [hc] at hw'
      cases hw'
  · by_cases hdc : d = c
    · rw [hdc, phase_set_self] at hd
      cases hd
    · rw [phase_set_of_ne hdc] at hd
      rcases hc with hc | hc
      · exact absurd (h.exclusive.updates d c w v hd hc hi) hdc
      · exact absurd hi (h.exclusive.readers d c w v hd hc)
  · by_cases hdc : d = c
    · rw [hdc, phase_set_self] at hd
      cases hd
    · rw [phase_set_of_ne hdc] at hd
      exact hr d hdc (hi ▸ (h.reading d w hd).2)
  · rcases hw' with hw' | hw' <;> cases hw'
  · rw [hw] at hd
    cases hd

/-- A step in which a guard finds its lock free. -/
theorem step {e : LockEvent C} (h : s.Owned rwlockNum) (hstep : LockStep rwlockNum s e s')
    (hfree : s.FindsFree rwlockNum e) : s'.Owned rwlockNum := by
  cases hstep with
  | guard hidle hcall =>
    rw [lockAttempt_guardFlag] at hcall
    rw [hcall.eq_of_free hfree]
    exact h.guard hidle hfree
  | lock hidle hcall =>
    rw [lockAttempt_readFlag] at hcall
    obtain ⟨hnone, rfl, rfl⟩ := hcall.rdlock_eq
    exact h.lock hidle hnone
  | update => exact h
  | read => exact h
  | unlock hc hunlock =>
    rcases hc with hc | hc
    · have hlock := h.updating _ _ hc
      rw [hunlock.eq_of_writer (by rw [hlock]) (by rw [hlock])]
      refine h.unlock (Or.inl hc) rfl fun d _ hd => ?_
      rw [hlock] at hd
      exact hd
    · obtain ⟨hnone, hmem⟩ := h.reading _ _ hc
      rw [hunlock.eq_of_reader hnone hmem]
      exact h.unlock (Or.inr hc) rfl fun d hdc hd => (List.mem_erase_of_ne hdc).mpr hd

/-- A guard that does not find its lock free lives without it. -/
theorem not_exclusive (h : s.Owned rwlockNum) {v : UInt32}
    (hstep : LockStep rwlockNum s (.guard c v) s')
    (hbusy : ¬(s.rwlocks (vtxno2rwlock rwlockNum v)).Free) : ¬s'.Exclusive rwlockNum := by
  intro hex
  cases hstep with
  | guard hidle hcall =>
    rw [lockAttempt_guardFlag] at hcall
    rw [hcall.eq_of_busy hbusy] at hex
    have hwriter := hex.writer c v phase_set_self
    rw [rwlocks_set_self] at hwriter
    exact h.writer_ne_of_idle hidle _ hwriter

end Owned

end VertexLocks

/-- **Mutual exclusion.** In every run in which each guard finds the lock of its vertex free, the
updates and the readers exclude each other; a further step keeps that if and only if it is not a
guard that finds the lock busy. -/
theorem vertexLocks_exclusive_iff {s : VertexLocks C} {es : List (LockEvent C)}
    (h : Steps (FreeStep rwlockNum) .init es s) :
    s.Exclusive rwlockNum ∧ ∀ e s', LockStep rwlockNum s e s' →
      (s'.Exclusive rwlockNum ↔ s.FindsFree rwlockNum e) := by
  have howned : s.Owned rwlockNum :=
    h.invariant (fun _ _ _ hs hstep => hs.step hstep.1 hstep.2) VertexLocks.owned_init
  refine ⟨howned.exclusive, fun e s' hstep => ⟨fun hex => ?_, fun hfree =>
    (howned.step hstep hfree).exclusive⟩⟩
  cases e with
  | guard c v => exact by_contra fun hbusy => howned.not_exclusive hstep hbusy hex
  | lock _ _ _ => trivial
  | update _ => trivial
  | read _ => trivial
  | unlock _ => trivial

end Steps

/-- An update of a vertex, and then a reader. -/
theorem vertexLocks_exclusive_small : ∃ s : VertexLocks ℕ,
    Steps (LockStep 64) .init [.guard 0 7, .update 0, .unlock 0, .lock 1 7 true] s ∧
      s.Exclusive 64 := by
  have hguard : LockStep 64 (.init : VertexLocks ℕ) (.guard 0 7) _ :=
    .guard rfl (.trywrlock ⟨rfl, rfl⟩)
  have hupdate : LockStep 64 _ (.update 0) _ :=
    .update (s := VertexLocks.init.set 7 ⟨some 0, []⟩ 0 (.updating 7)) (v := 7) rfl
  have hunlock : LockStep 64 (VertexLocks.init.set 7 ⟨some 0, []⟩ 0 (.updating 7)) (.unlock 0) _ :=
    .unlock (v := 7) (Or.inl rfl) (.writer rfl)
  have hlock : LockStep 64 ((VertexLocks.init.set 7 ⟨some 0, []⟩ 0 (.updating 7)).set 7 ⟨none, []⟩ 0
      .idle) (.lock 1 7 true) _ := .lock rfl (.rdlock rfl)
  have hrun : Steps (FreeStep 64) .init [.guard 0 7, .update 0, .unlock 0, .lock 1 7 true] _ :=
    .snoc (.snoc (.snoc (.single ⟨hguard, rfl, rfl⟩) ⟨hupdate, trivial⟩) ⟨hunlock, trivial⟩)
      ⟨hlock, trivial⟩
  exact ⟨_, hrun.mono fun _ _ _ h => h.1, (vertexLocks_exclusive_iff 64 hrun).1⟩

/-- Two updates of one vertex have a guard at the same time, and the one that did not get the lock
releases the lock of the other. -/
theorem vertexLocks_exclusive_false_of_busy : ∃ s : VertexLocks ℕ,
    Steps (LockStep 64) .init [.guard 0 7, .guard 1 7, .unlock 1] s ∧
      s.phase 0 = .updating 7 ∧ (s.rwlocks (vtxno2rwlock 64 7)).Free ∧ ¬s.Exclusive 64 := by
  have hguard : LockStep 64 (.init : VertexLocks ℕ) (.guard 0 7) _ :=
    .guard rfl (.trywrlock ⟨rfl, rfl⟩)
  have hbusy := (Steps.single hguard).snoc (.guard (c := 1) (v := 7) rfl
    (.trywrlockBusy fun h => Option.some_ne_none _ h.1))
  have hunlock := hbusy.snoc (.unlock (c := 1) (v := 7) (Or.inl rfl)
    (.otherWriter (d := 0) (fun h => h.elim nofun nofun) rfl))
  exact ⟨_, hunlock, rfl, ⟨rfl, rfl⟩, fun h => Option.some_ne_none _ (h.writer 0 7 rfl).symm⟩

end Nynn
