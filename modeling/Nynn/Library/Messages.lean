import Mathlib.Data.List.Basic
import Mathlib.Data.List.TakeDrop

/-!
# Messages in a stream

A stream carries messages one after the other. What has come so far are some messages and a proper
beginning of the next one.

## Main definitions

* `Messages.Begun`: the beginning of the next message has come, but not all of it.

## Main results

* `Messages.Begun.eq_nil_iff`: nothing of the next message has come exactly when the stream ends on a
  boundary.
* `Messages.begun_append`: the next bytes complete the message, or they do not.
-/

namespace Messages

variable {α : Type*} {rest : List (List α)} {m p q later : List α}

/-- Of the messages `rest` to come, the bytes `q` have come: a proper beginning of the first one, or
nothing. -/
inductive Begun : List α → List (List α) → Prop
  | nil {rest : List (List α)} : Begun [] rest
  | cons {q m : List α} {rest : List (List α)} (hq : q <+: m) (hlt : q.length < m.length) :
      Begun q (m :: rest)

/-- More messages may come afterwards. -/
theorem Begun.append (h : Begun q rest) (more : List (List α)) : Begun q (rest ++ more) := by
  cases h with
  | nil => exact .nil
  | cons hq hlt => exact .cons hq hlt

theorem Begun.length_lt (h : Begun q (m :: rest)) (hm : 0 < m.length) : q.length < m.length := by
  cases h with
  | nil => exact hm
  | cons _ hlt => exact hlt

/-- **Boundaries.** The stream ends on a boundary exactly when nothing of the next message has
come. -/
theorem Begun.eq_nil_iff (h : Begun q rest) (done : List (List α)) :
    q = [] ↔ ∃ k, done.flatten ++ q = ((done ++ rest).take k).flatten := by
  refine ⟨fun hq => ⟨done.length, by rw [hq, List.append_nil, List.take_left]⟩, ?_⟩
  rintro ⟨k, hk⟩
  cases h with
  | nil => rfl
  | @cons _ m rest hq hlt =>
    have hlen := congrArg List.length hk
    rw [List.length_append] at hlen
    by_cases hkd : k ≤ done.length
    · rw [List.take_append_of_le_length hkd] at hlen
      have hle : (done.take k).flatten.length ≤ done.flatten.length := by
        conv_rhs => rw [← List.take_append_drop k done, List.flatten_append, List.length_append]
        exact Nat.le_add_right ..
      exact List.eq_nil_of_length_eq_zero (by omega)
    · obtain ⟨j, rfl⟩ : ∃ j, k = done.length + (j + 1) := ⟨k - done.length - 1, by omega⟩
      rw [List.take_length_add_append, List.take_succ_cons, List.flatten_append,
        List.flatten_cons, List.length_append, List.length_append] at hlen
      omega

/-- The next bytes complete the message, and `p'` is what they have of the messages behind it, or
they do not. -/
theorem begun_append (hbytes : q ++ p ++ later = m ++ rest.flatten) :
    (∃ p', q ++ p = m ++ p' ∧ p' ++ later = rest.flatten) ∨
      (q ++ p <+: m ∧ (q ++ p).length < m.length) := by
  rcases List.append_eq_append_iff.mp hbytes with ⟨r, hm, hr⟩ | ⟨r, hqp, hr⟩
  · cases r with
    | nil => exact Or.inl ⟨[], by rw [hm, List.append_nil, List.append_nil], hr⟩
    | cons b r =>
      refine Or.inr ⟨⟨_, hm.symm⟩, ?_⟩
      simp only [hm, List.length_append, List.length_cons]
      omega
  · exact Or.inl ⟨r, hqp, hr.symm⟩

end Messages
