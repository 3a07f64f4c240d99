import Mathlib.Data.List.Induction
import Mathlib.Logic.Relation

/-!
# Runs of a transition system

A transition system is a relation between a state, an action and the next state. A run is a list
of actions with a path of states; invariants of the steps are invariants of the runs.

## Main definitions

* `Transition.Steps`: runs.

## Main results

* `Transition.Steps.invariant`: what every step keeps, every run keeps.
* `Transition.Steps.append`, `Transition.Steps.of_append`: runs compose, and a run can be cut.
* `Transition.Steps.deterministic`: runs of a deterministic system end in one state.
-/

namespace Transition

variable {σ α : Type*} {step : σ → α → σ → Prop} {s s' s'' : σ} {a : α} {as bs : List α}

/-- `Steps step s as s'`: the actions `as` lead from `s` to `s'`. -/
inductive Steps (step : σ → α → σ → Prop) : σ → List α → σ → Prop
  | nil {s : σ} : Steps step s [] s
  | snoc {s s' s'' : σ} {as : List α} {a : α} (h : Steps step s as s') (ha : step s' a s'') :
      Steps step s (as ++ [a]) s''

namespace Steps

theorem single (h : step s a s') : Steps step s [a] s' :=
  show Steps step s ([] ++ [a]) s' from .snoc .nil h

theorem append (h : Steps step s as s') (h' : Steps step s' bs s'') :
    Steps step s (as ++ bs) s'' := by
  induction h' with
  | nil => rwa [List.append_nil]
  | snoc _ ha ih => rw [← List.append_assoc]; exact .snoc ih ha

theorem cons (ha : step s a s') (h : Steps step s' as s'') : Steps step s (a :: as) s'' :=
  append (single ha) h

theorem of_nil (h : Steps step s [] s') : s' = s := by
  generalize hbs : ([] : List α) = bs at h
  cases h with
  | nil => rfl
  | snoc => simp at hbs

/-- The last step of a run. -/
theorem of_concat (h : Steps step s (as ++ [a]) s'') : ∃ s', Steps step s as s' ∧ step s' a s'' := by
  generalize hbs : as ++ [a] = bs at h
  induction h with
  | nil => simp at hbs
  | snoc h ha =>
    obtain ⟨rfl, hab⟩ := List.append_inj' hbs rfl
    rw [List.singleton_inj.mp hab]
    exact ⟨_, h, ha⟩

/-- The first part of a run. -/
theorem of_append (h : Steps step s (as ++ bs) s'') :
    ∃ s', Steps step s as s' ∧ Steps step s' bs s'' := by
  induction bs using List.reverseRecOn generalizing s'' with
  | nil => exact ⟨s'', by rwa [List.append_nil] at h, .nil⟩
  | append_singleton bs b ih =>
    rw [← List.append_assoc] at h
    obtain ⟨s₁, h₁, hb⟩ := h.of_concat
    obtain ⟨s', h', h''⟩ := ih h₁
    exact ⟨s', h', h''.snoc hb⟩

/-- **Determinism.** When a step has one outcome, a run has one outcome. -/
theorem deterministic (hstep : ∀ s a s₁ s₂, step s a s₁ → step s a s₂ → s₁ = s₂)
    (h : Steps step s as s') (h' : Steps step s as s'') : s' = s'' := by
  induction as using List.reverseRecOn generalizing s' s'' with
  | nil => rw [h.of_nil, h'.of_nil]
  | append_singleton as a ih =>
    obtain ⟨s₁, h₁, ha⟩ := h.of_concat
    obtain ⟨s₂, h₂, hb⟩ := h'.of_concat
    exact hstep _ _ _ _ ha (ih h₁ h₂ ▸ hb)

/-- A run of steps of one kind is a run of steps of a more general kind. -/
theorem mono {step' : σ → α → σ → Prop} (hstep : ∀ s a s', step s a s' → step' s a s')
    (h : Steps step s as s') : Steps step' s as s' := by
  induction h with
  | nil => exact .nil
  | snoc _ ha ih => exact .snoc ih (hstep _ _ _ ha)

/-- **Invariants.** What every step keeps, every run keeps. -/
theorem invariant {I : σ → Prop} (hstep : ∀ s a s', I s → step s a s' → I s')
    (h : Steps step s as s') (hs : I s) : I s' := by
  induction h with
  | nil => exact hs
  | snoc _ ha ih => exact hstep _ _ _ ih ha

/-- What every step with an action of the run keeps, the run keeps. -/
theorem invariant_of_mem {I : σ → Prop}
    (hstep : ∀ s, ∀ a ∈ as, ∀ s', I s → step s a s' → I s') (h : Steps step s as s')
    (hs : I s) : I s' := by
  induction h with
  | nil => exact hs
  | snoc _ ha ih =>
    exact hstep _ _ (by simp) _ (ih fun s b hb => hstep s b (List.mem_append_left _ hb)) ha

/-- Every action of a run is a step of the run. -/
theorem exists_step_of_mem (h : Steps step s as s') (ha : a ∈ as) : ∃ s s', step s a s' := by
  induction h with
  | nil => exact absurd ha List.not_mem_nil
  | snoc _ hstep ih =>
    rcases List.mem_append.mp ha with hmem | hmem
    · exact ih hmem
    · exact List.mem_singleton.mp hmem ▸ ⟨_, _, hstep⟩

end Steps

end Transition
