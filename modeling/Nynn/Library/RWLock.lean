import Mathlib.Data.List.Basic

/-!
# Readers–writer locks

A lock is held by one writer or by any number of readers. The state of a lock names the clients that
hold it, so that one can tell whose hold an unlock releases: a client that holds the lock releases
its own hold, and one that does not releases a hold of somebody else, if there is any.

## Main definitions

* `RWLock`: a lock with its holders; `RWLock.Free`, `RWLock.Holds`.
* `RWLock.Calls`: a blocking or a nonblocking attempt to take the lock, and its result.
* `RWLock.Unlocks`: a release.

## Main results

* `RWLock.Calls.eq_of_free`: a free lock is granted.
* `RWLock.Unlocks.eq_of_writer`, `RWLock.Unlocks.eq_of_reader`: who holds the lock releases its own
  hold.
-/

/-- A lock, with the clients that hold it. -/
structure RWLock (C : Type) where
  writer : Option C
  readers : List C

namespace RWLock

variable {C : Type} {l l' : RWLock C} {c : C} {granted : Bool}

/-- The lock that nobody holds. -/
def unlocked : RWLock C := ⟨none, []⟩

/-- Nobody holds the lock. -/
def Free (l : RWLock C) : Prop := l.writer = none ∧ l.readers = []

def Holds (l : RWLock C) (c : C) : Prop := l.writer = some c ∨ c ∈ l.readers

/-- The ways to take a lock. -/
inductive Attempt
  | wrlock
  | trywrlock
  | rdlock
  | tryrdlock
  deriving DecidableEq, Repr

/-- A call by which the client `c` tries to take the lock. A blocking call returns when it is
granted, and a nonblocking one fails when it cannot be granted. -/
inductive Calls (c : C) : Attempt → RWLock C → RWLock C → Bool → Prop
  | wrlock {l : RWLock C} (h : l.Free) : Calls c .wrlock l ⟨some c, []⟩ true
  | trywrlock {l : RWLock C} (h : l.Free) : Calls c .trywrlock l ⟨some c, []⟩ true
  | trywrlockBusy {l : RWLock C} (h : ¬l.Free) : Calls c .trywrlock l l false
  | rdlock {l : RWLock C} (h : l.writer = none) :
      Calls c .rdlock l ⟨none, c :: l.readers⟩ true
  | tryrdlock {l : RWLock C} (h : l.writer = none) :
      Calls c .tryrdlock l ⟨none, c :: l.readers⟩ true
  | tryrdlockBusy {l : RWLock C} (h : l.writer ≠ none) : Calls c .tryrdlock l l false

theorem Calls.eq_of_free (h : Calls c .trywrlock l l' granted) (hfree : l.Free) :
    l' = ⟨some c, []⟩ := by
  cases h with
  | trywrlock => rfl
  | trywrlockBusy hbusy => exact absurd hfree hbusy

theorem Calls.eq_of_busy (h : Calls c .trywrlock l l' granted) (hbusy : ¬l.Free) : l' = l := by
  cases h with
  | trywrlock hfree => exact absurd hfree hbusy
  | trywrlockBusy => rfl

/-- A reader is granted a lock that no writer holds. -/
theorem Calls.rdlock_eq (h : Calls c .rdlock l l' granted) :
    l.writer = none ∧ l' = ⟨none, c :: l.readers⟩ ∧ granted = true := by
  cases h with
  | rdlock hfree => exact ⟨hfree, rfl, rfl⟩

variable [DecidableEq C]

/-- A release by the client `c`. -/
inductive Unlocks (c : C) : RWLock C → RWLock C → Prop
  | writer {l : RWLock C} (h : l.writer = some c) : Unlocks c l { l with writer := none }
  | reader {l : RWLock C} (h : c ∈ l.readers) : Unlocks c l { l with readers := l.readers.erase c }
  | otherWriter {l : RWLock C} {d : C} (h : ¬l.Holds c) (hd : l.writer = some d) :
      Unlocks c l { l with writer := none }
  | otherReader {l : RWLock C} {d : C} (h : ¬l.Holds c) (hd : d ∈ l.readers) :
      Unlocks c l { l with readers := l.readers.erase d }
  | free {l : RWLock C} (h : l.Free) : Unlocks c l l

/-- The only holder releases its own hold. -/
theorem Unlocks.eq_of_writer (h : Unlocks c l l') (hw : l.writer = some c) (hr : l.readers = []) :
    l' = unlocked := by
  cases h with
  | writer _ => rw [hr, unlocked]
  | reader hmem => rw [hr] at hmem; cases hmem
  | otherWriter hnot _ => exact absurd (Or.inl hw) hnot
  | otherReader hnot _ => exact absurd (Or.inl hw) hnot
  | free hfree => rw [hfree.1] at hw; cases hw

/-- A reader releases its own hold. -/
theorem Unlocks.eq_of_reader (h : Unlocks c l l') (hw : l.writer = none) (hr : c ∈ l.readers) :
    l' = ⟨none, l.readers.erase c⟩ := by
  cases h with
  | writer hc => rw [hw] at hc; cases hc
  | reader _ => rw [hw]
  | otherWriter hnot _ => exact absurd (Or.inr hr) hnot
  | otherReader hnot _ => exact absurd (Or.inr hr) hnot
  | free hfree => rw [hfree.2] at hr; cases hr

end RWLock
