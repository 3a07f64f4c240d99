import Mathlib.Logic.Basic

/-!
# Programs on a state that may fail

A program reads and changes a state and ends with a result or with a failure. A failure keeps the
changes made before it, as an exception does in a language with mutable memory.

Two programs on different states are compared by a relational triple: from related states both
succeed or both fail in the same way, and the states stay related. The rules of the calculus
follow the constructors of programs.

## Main definitions

* `Program.Prog`: programs, with `Program.Prog.get`, `Program.Prog.modify` and
  `Program.Prog.fail`.
* `Program.Keeps`: a program leaves a part of the state alone.
* `Program.Preserves`: a program preserves a property of states.
* `Program.Triple`: what holds after a program that succeeds, and how it may fail.
* `Program.FailsOr`: a program fails or does what another one does.
* `Program.Rel`: the relational triple.

## Main results

* `Program.Prog.run_bind_of_ok`, `Program.Prog.run_bind_of_error`: running a sequence step by step.
* `Program.Triple.bind`, `Program.Rel.bind`: the rules of sequence.
* `Program.Triple.mono`, `Program.Rel.mono`: the rules of consequence.
-/

namespace Program

variable {σ τ ε α β γ δ : Type}

/-- A program on states `σ` with failures `ε` and results `α`. -/
structure Prog (σ ε α : Type) where
  /-- Run the program from a state. -/
  run : σ → Except ε α × σ

namespace Prog

instance : Monad (Prog σ ε) where
  pure a := ⟨fun s => (.ok a, s)⟩
  bind x f := ⟨fun s =>
    match x.run s with
    | (.ok a, s') => (f a).run s'
    | (.error e, s') => (.error e, s')⟩

/-- The current state. -/
def get : Prog σ ε σ := ⟨fun s => (.ok s, s)⟩

/-- Change the state. -/
def modify (f : σ → σ) : Prog σ ε Unit := ⟨fun s => (.ok (), f s)⟩

/-- Fail. -/
def fail (e : ε) : Prog σ ε α := ⟨fun s => (.error e, s)⟩

/-- Replace the failure of a program. -/
def mapError (f : ε → ε) (x : Prog σ ε α) : Prog σ ε α :=
  ⟨fun s => ((x.run s).1.mapError f, (x.run s).2)⟩

@[simp] theorem run_pure (a : α) (s : σ) : (pure a : Prog σ ε α).run s = (.ok a, s) := rfl

@[simp] theorem run_get (s : σ) : (get : Prog σ ε σ).run s = (.ok s, s) := rfl

@[simp] theorem run_modify (f : σ → σ) (s : σ) :
    (modify f : Prog σ ε Unit).run s = (.ok (), f s) := rfl

@[simp] theorem run_fail (e : ε) (s : σ) : (fail e : Prog σ ε α).run s = (.error e, s) := rfl

/-- A sequence, run from a state. -/
theorem run_bind (x : Prog σ ε α) (f : α → Prog σ ε β) (s : σ) :
    (x >>= f).run s = match x.run s with
      | (.ok a, s') => (f a).run s'
      | (.error e, s') => (.error e, s') := rfl

theorem run_bind_of_ok {x : Prog σ ε α} {f : α → Prog σ ε β} {s s' : σ} {a : α}
    (h : x.run s = (.ok a, s')) : (x >>= f).run s = (f a).run s' := by
  rw [run_bind, h]

theorem run_bind_of_error {x : Prog σ ε α} {f : α → Prog σ ε β} {s s' : σ} {e : ε}
    (h : x.run s = (.error e, s')) : (x >>= f).run s = (.error e, s') := by
  rw [run_bind, h]

theorem run_mapError (f : ε → ε) (x : Prog σ ε α) (s : σ) :
    (mapError f x).run s = ((x.run s).1.mapError f, (x.run s).2) := rfl

@[simp] theorem pure_bind (a : α) (f : α → Prog σ ε β) : (pure a >>= f) = f a := rfl

@[simp] theorem run_get_bind (f : σ → Prog σ ε β) (s : σ) :
    (get >>= f).run s = (f s).run s := rfl

@[simp] theorem run_modify_bind (g : σ → σ) (f : Unit → Prog σ ε β) (s : σ) :
    (modify g >>= f).run s = (f ()).run (g s) := rfl

@[simp] theorem run_fail_bind (e : ε) (f : α → Prog σ ε β) (s : σ) :
    (fail e >>= f).run s = (.error e, s) := rfl

theorem bind_assoc (x : Prog σ ε α) (f : α → Prog σ ε β) (g : β → Prog σ ε γ) :
    x >>= f >>= g = x >>= fun a => f a >>= g := by
  have hrun : ∀ s, (x >>= f >>= g).run s = (x >>= fun a => f a >>= g).run s := by
    intro s
    rcases h : x.run s with ⟨e | a, s'⟩
    · rw [run_bind_of_error h, run_bind_of_error (run_bind_of_error h)]
    · rw [run_bind_of_ok h, run_bind, run_bind_of_ok h, run_bind]
  exact congrArg Prog.mk (funext hrun)

/-- A sequence whose first two parts are run. -/
theorem run_bind_bind_of_ok {x : Prog σ ε α} {g : α → Prog σ ε β} {f : β → Prog σ ε γ} {s s' : σ}
    {b : β} (h : (x >>= g).run s = (.ok b, s')) :
    (x >>= fun a => g a >>= f).run s = (f b).run s' := by
  rw [← bind_assoc, run_bind_of_ok h]

/-- A sequence that succeeds has a first part that succeeds. -/
theorem of_bind_eq_ok {x : Prog σ ε α} {f : α → Prog σ ε β} {s s'' : σ} {b : β}
    (h : (x >>= f).run s = (.ok b, s'')) :
    ∃ a s', x.run s = (.ok a, s') ∧ (f a).run s' = (.ok b, s'') := by
  rcases hx : x.run s with ⟨e | a, s'⟩
  · rw [run_bind_of_error hx] at h
    cases h
  · exact ⟨a, s', rfl, (run_bind_of_ok hx).symm.trans h⟩

end Prog

/-! ### What a program leaves alone -/

/-- The program leaves the part `f` of the state as it is, whether it succeeds or fails. -/
def Keeps (f : σ → γ) (x : Prog σ ε α) : Prop :=
  ∀ s, f (x.run s).2 = f s

namespace Keeps

variable {f : σ → γ} {x : Prog σ ε α} {g : α → Prog σ ε β}

theorem of_run {s s' : σ} {r : Except ε α} (h : Keeps f x) (hrun : x.run s = (r, s')) :
    f s' = f s := by
  rw [← h s, hrun]

theorem pure (a : α) : Keeps f (pure a : Prog σ ε α) := fun _ => rfl

theorem get : Keeps f (Prog.get : Prog σ ε σ) := fun _ => rfl

theorem fail (e : ε) : Keeps f (Prog.fail e : Prog σ ε α) := fun _ => rfl

theorem modify {k : σ → σ} (h : ∀ s, f (k s) = f s) : Keeps f (Prog.modify k : Prog σ ε Unit) :=
  fun s => h s

theorem bind (hx : Keeps f x) (hg : ∀ a, Keeps f (g a)) : Keeps f (x >>= g) := by
  intro s
  rcases h : x.run s with ⟨e | a, s'⟩
  · have hs := hx s
    rw [h] at hs
    rw [Prog.run_bind_of_error h, hs]
  · have hs := hx s
    rw [h] at hs
    rw [Prog.run_bind_of_ok h, hg a s', hs]

theorem mapError {g : ε → ε} (hx : Keeps f x) : Keeps f (Prog.mapError g x) := hx

/-- A program leaves the parts of a part alone. -/
theorem comp (hx : Keeps f x) (g : γ → δ) : Keeps (fun s => g (f s)) x := fun s => congrArg g (hx s)

theorem ite {c : Prop} [Decidable c] {y : Prog σ ε α} (hx : Keeps f x) (hy : Keeps f y) :
    Keeps f (if c then x else y) := by
  by_cases hc : c
  · simpa only [if_pos hc] using hx
  · simpa only [if_neg hc] using hy

end Keeps

/-! ### Properties of states that a program preserves -/

/-- A program preserves a property of states, whether it succeeds or fails. -/
def Preserves (I : σ → Prop) (x : Prog σ ε α) : Prop := ∀ s, I s → I (x.run s).2

namespace Preserves

variable {I : σ → Prop} {x y : Prog σ ε α} {g : α → Prog σ ε β}

theorem of_run {s s' : σ} {r : Except ε α} (h : Preserves I x) (hs : I s)
    (hrun : x.run s = (r, s')) : I s' := by
  have hs' := h s hs
  rwa [hrun] at hs'

theorem pure (a : α) : Preserves I (pure a : Prog σ ε α) := fun _ hs => hs

theorem get : Preserves I (Prog.get : Prog σ ε σ) := fun _ hs => hs

theorem fail (e : ε) : Preserves I (Prog.fail e : Prog σ ε α) := fun _ hs => hs

theorem modify {k : σ → σ} (h : ∀ s, I s → I (k s)) :
    Preserves I (Prog.modify k : Prog σ ε Unit) := h

theorem bind (hx : Preserves I x) (hg : ∀ a, Preserves I (g a)) : Preserves I (x >>= g) := by
  intro s hs
  have hs' := hx s hs
  rcases h : x.run s with ⟨e | a, s'⟩
  · rw [h] at hs'
    rwa [Prog.run_bind_of_error h]
  · rw [h] at hs'
    rw [Prog.run_bind_of_ok h]
    exact hg a s' hs'

theorem mapError {g : ε → ε} (hx : Preserves I x) : Preserves I (Prog.mapError g x) := hx

theorem ite {c : Prop} [Decidable c] (hx : Preserves I x) (hy : Preserves I y) :
    Preserves I (if c then x else y) := by
  by_cases hc : c
  · simpa only [if_pos hc] using hx
  · simpa only [if_neg hc] using hy

end Preserves

/-! ### Triples -/

/-- From a state with `P` the program succeeds with a result and a state with `Q`, or fails in a way
that `E` allows. -/
def Triple (P : σ → Prop) (x : Prog σ ε α) (Q : α → σ → Prop) (E : ε → Prop) : Prop :=
  ∀ s, P s → (∃ a s', x.run s = (.ok a, s') ∧ Q a s') ∨ ∃ e s', x.run s = (.error e, s') ∧ E e

namespace Triple

variable {P P' : σ → Prop} {Q Q' : α → σ → Prop} {R : β → σ → Prop} {E : ε → Prop}
  {x y : Prog σ ε α} {f : α → Prog σ ε β}

/-- A program that succeeds ends with what the triple says. -/
theorem of_ok (h : Triple P x Q E) {s s' : σ} {a : α} (hs : P s) (hrun : x.run s = (.ok a, s')) :
    Q a s' := by
  rcases h s hs with ⟨b, s'', hb, hq⟩ | ⟨e, s'', he, -⟩
  · rw [hrun, Prod.mk.injEq, Except.ok.injEq] at hb
    obtain ⟨rfl, rfl⟩ := hb
    exact hq
  · rw [hrun] at he
    cases he

/-- A program that fails does so in a way that the triple allows. -/
theorem of_error (h : Triple P x Q E) {s s' : σ} {e : ε} (hs : P s)
    (hrun : x.run s = (.error e, s')) : E e := by
  rcases h s hs with ⟨b, s'', hb, -⟩ | ⟨e', s'', he, hE⟩
  · rw [hrun] at hb
    cases hb
  · rw [hrun, Prod.mk.injEq, Except.error.injEq] at he
    exact he.1 ▸ hE

theorem pure {a : α} (h : ∀ s, P s → Q a s) : Triple P (pure a : Prog σ ε α) Q E :=
  fun s hs => Or.inl ⟨a, s, rfl, h s hs⟩

theorem fail {e : ε} (h : E e) : Triple P (Prog.fail e : Prog σ ε α) Q E :=
  fun s _ => Or.inr ⟨e, s, rfl, h⟩

theorem modify {Q : Unit → σ → Prop} {k : σ → σ} (h : ∀ s, P s → Q () (k s)) :
    Triple P (Prog.modify k : Prog σ ε Unit) Q E :=
  fun s hs => Or.inl ⟨(), k s, rfl, h s hs⟩

/-- The program reads its state. -/
theorem get_bind {f : σ → Prog σ ε β} (h : ∀ s, P s → Triple (· = s) (f s) R E) :
    Triple P (Prog.get >>= f) R E :=
  fun s hs => h s hs s rfl

/-- Sequence: the result and the state of the first part are the start of the second part. -/
theorem bind (hx : Triple P x Q E) (hf : ∀ a, Triple (Q a) (f a) R E) :
    Triple P (x >>= f) R E := by
  intro s hs
  rcases hx s hs with ⟨a, s', hrun, hq⟩ | ⟨e, s', hrun, he⟩
  · rcases hf a s' hq with ⟨b, s'', hrun', hr⟩ | ⟨e, s'', hrun', he⟩
    · exact Or.inl ⟨b, s'', (Prog.run_bind_of_ok hrun).trans hrun', hr⟩
    · exact Or.inr ⟨e, s'', (Prog.run_bind_of_ok hrun).trans hrun', he⟩
  · exact Or.inr ⟨e, s', Prog.run_bind_of_error hrun, he⟩

/-- Consequence. -/
theorem mono (h : Triple P x Q E) (hP : ∀ s, P' s → P s) (hQ : ∀ a s, Q a s → Q' a s) :
    Triple P' x Q' E := by
  intro s hs
  rcases h s (hP s hs) with ⟨a, s', hrun, hq⟩ | hfail
  · exact Or.inl ⟨a, s', hrun, hQ a s' hq⟩
  · exact Or.inr hfail

theorem ite {c : Prop} [Decidable c] (hx : c → Triple P x Q E) (hy : ¬c → Triple P y Q E) :
    Triple P (if c then x else y) Q E := by
  by_cases hc : c
  · simpa only [if_pos hc] using hx hc
  · simpa only [if_neg hc] using hy hc

/-- A fact that the state implies may be used. -/
theorem of_forall {p : Prop} (hp : ∀ s, P s → p) (h : p → Triple P x Q E) : Triple P x Q E :=
  fun s hs => h (hp s hs) s hs

/-- A part of the state that the program leaves alone has the same value afterwards. -/
theorem of_keeps {f : σ → γ} (h : Keeps f x) (a : γ) :
    Triple (fun s => f s = a) x (fun _ s => f s = a) fun _ => True := by
  intro s hs
  rcases hrun : x.run s with ⟨e | b, s'⟩
  · exact Or.inr ⟨e, s', rfl, trivial⟩
  · exact Or.inl ⟨b, s', rfl, (h.of_run hrun).trans hs⟩

end Triple

/-! ### Programs that fail more often -/

/-- The program `x` fails or does what `y` does, on states that `φ` takes to states of `y`. -/
def FailsOr (φ : σ → τ) (x : Prog σ ε α) (y : Prog τ ε α) : Prop :=
  ∀ s, (∃ e s', x.run s = (.error e, s')) ∨
    ∃ a s', x.run s = (.ok a, s') ∧ y.run (φ s) = (.ok a, φ s')

namespace FailsOr

variable {φ : σ → τ} {x x' : Prog σ ε α} {y y' : Prog τ ε α} {f : α → Prog σ ε β}
  {g : α → Prog τ ε β}

theorem refl (x : Prog σ ε α) : FailsOr id x x := by
  intro s
  rcases hrun : x.run s with ⟨e | a, s'⟩
  · exact Or.inl ⟨e, s', rfl⟩
  · exact Or.inr ⟨a, s', rfl, hrun⟩

/-- A program that succeeds does what the other one does. -/
theorem of_ok (h : FailsOr φ x y) {s s' : σ} {a : α} (hrun : x.run s = (.ok a, s')) :
    y.run (φ s) = (.ok a, φ s') := by
  rcases h s with ⟨e, s'', he⟩ | ⟨b, s'', hb, hy⟩
  · rw [hrun] at he
    cases he
  · rw [hrun, Prod.mk.injEq, Except.ok.injEq] at hb
    obtain ⟨rfl, rfl⟩ := hb
    exact hy

theorem pure (a : α) : FailsOr φ (pure a : Prog σ ε α) (pure a) := fun s => Or.inr ⟨a, s, rfl, rfl⟩

theorem fail (e : ε) : FailsOr φ (Prog.fail e : Prog σ ε α) y := fun s => Or.inl ⟨e, s, rfl⟩

theorem modify {k : σ → σ} {l : τ → τ} (h : ∀ s, l (φ s) = φ (k s)) :
    FailsOr φ (Prog.modify k : Prog σ ε Unit) (Prog.modify l) :=
  fun s => Or.inr ⟨(), k s, rfl, congrArg (Prod.mk _) (h s)⟩

/-- Both programs read their states. -/
theorem get_bind {f : σ → Prog σ ε β} {g : τ → Prog τ ε β} (h : ∀ s, FailsOr φ (f s) (g (φ s))) :
    FailsOr φ (Prog.get >>= f) (Prog.get >>= g) := fun s => h s s

theorem bind (hx : FailsOr φ x y) (hf : ∀ a, FailsOr φ (f a) (g a)) :
    FailsOr φ (x >>= f) (y >>= g) := by
  intro s
  rcases hx s with ⟨e, s', he⟩ | ⟨a, s', ha, hy⟩
  · exact Or.inl ⟨e, s', Prog.run_bind_of_error he⟩
  · rw [Prog.run_bind_of_ok ha, Prog.run_bind_of_ok hy]
    exact hf a s'

theorem ite {c : Prop} [Decidable c] (hx : FailsOr φ x y) (hy : FailsOr φ x' y') :
    FailsOr φ (if c then x else x') (if c then y else y') := by
  by_cases hc : c
  · simpa only [if_pos hc] using hx
  · simpa only [if_neg hc] using hy

end FailsOr

/-! ### Relational triples -/

/-- From states related by `P` the programs `x` and `y` both succeed, with results and states
related by `Q`, or fail with the same failure, with states related by `E`. -/
def Rel (P : σ → τ → Prop) (x : Prog σ ε α) (y : Prog τ ε β) (Q : α → β → σ → τ → Prop)
    (E : ε → σ → τ → Prop) : Prop :=
  ∀ s t, P s t →
    (∃ a b s' t', x.run s = (.ok a, s') ∧ y.run t = (.ok b, t') ∧ Q a b s' t') ∨
    (∃ e s' t', x.run s = (.error e, s') ∧ y.run t = (.error e, t') ∧ E e s' t')

namespace Rel

variable {P P' : σ → τ → Prop} {Q Q' : α → β → σ → τ → Prop} {R : γ → δ → σ → τ → Prop}
  {E : ε → σ → τ → Prop} {x : Prog σ ε α} {y : Prog τ ε β} {f : α → Prog σ ε γ} {g : β → Prog τ ε δ}

theorem pure {a : α} {b : β} (h : ∀ s t, P s t → Q a b s t) :
    Rel P (pure a : Prog σ ε α) (pure b : Prog τ ε β) Q E :=
  fun s t hst => Or.inl ⟨a, b, s, t, rfl, rfl, h s t hst⟩

theorem fail {e : ε} (h : ∀ s t, P s t → E e s t) :
    Rel P (Prog.fail e : Prog σ ε α) (Prog.fail e : Prog τ ε β) Q E :=
  fun s t hst => Or.inr ⟨e, s, t, rfl, rfl, h s t hst⟩

/-- Both programs read their states. -/
theorem get_bind {f : σ → Prog σ ε γ} {g : τ → Prog τ ε δ}
    (h : ∀ s t, P s t → Rel (fun s' t' => s' = s ∧ t' = t) (f s) (g t) R E) :
    Rel P (Prog.get >>= f) (Prog.get >>= g) R E :=
  fun s t hst => h s t hst s t ⟨rfl, rfl⟩

theorem modify {Q : Unit → Unit → σ → τ → Prop} {k : σ → σ} {l : τ → τ}
    (h : ∀ s t, P s t → Q () () (k s) (l t)) :
    Rel P (Prog.modify k : Prog σ ε Unit) (Prog.modify l : Prog τ ε Unit) Q E :=
  fun s t hst => Or.inl ⟨(), (), k s, l t, rfl, rfl, h s t hst⟩

/-- Sequence: the results and states of the first parts are the start of the second parts. -/
theorem bind (hxy : Rel P x y Q E) (hfg : ∀ a b, Rel (Q a b) (f a) (g b) R E) :
    Rel P (x >>= f) (y >>= g) R E := by
  intro s t hst
  rcases hxy s t hst with ⟨a, b, s', t', hx, hy, hq⟩ | ⟨e, s', t', hx, hy, he⟩
  · rcases hfg a b s' t' hq with ⟨c, d, s'', t'', hf, hg, hr⟩ | ⟨e, s'', t'', hf, hg, he⟩
    · exact Or.inl ⟨c, d, s'', t'', (Prog.run_bind_of_ok hx).trans hf,
        (Prog.run_bind_of_ok hy).trans hg, hr⟩
    · exact Or.inr ⟨e, s'', t'', (Prog.run_bind_of_ok hx).trans hf,
        (Prog.run_bind_of_ok hy).trans hg, he⟩
  · exact Or.inr ⟨e, s', t', Prog.run_bind_of_error hx, Prog.run_bind_of_error hy, he⟩

/-- Sequence, when the first parts have the same result. -/
theorem bind_eq {y : Prog τ ε α} {g : α → Prog τ ε δ} {Q : α → σ → τ → Prop}
    (hxy : Rel P x y (fun a b s t => a = b ∧ Q a s t) E)
    (hfg : ∀ a, Rel (Q a) (f a) (g a) R E) : Rel P (x >>= f) (y >>= g) R E := by
  refine bind hxy fun a b s t hst => ?_
  obtain ⟨rfl, hq⟩ := hst
  exact hfg a s t hq

/-- Consequence. -/
theorem mono (h : Rel P x y Q E) (hP : ∀ s t, P' s t → P s t)
    (hQ : ∀ a b s t, Q a b s t → Q' a b s t) : Rel P' x y Q' E := by
  intro s t hst
  rcases h s t (hP s t hst) with ⟨a, b, s', t', hx, hy, hq⟩ | hfail
  · exact Or.inl ⟨a, b, s', t', hx, hy, hQ a b s' t' hq⟩
  · exact Or.inr hfail

/-- Both programs branch on the same condition. -/
theorem ite {c : Prop} [Decidable c] {x' : Prog σ ε α} {y' : Prog τ ε β}
    (h : c → Rel P x y Q E) (h' : ¬c → Rel P x' y' Q E) :
    Rel P (if c then x else x') (if c then y else y') Q E := by
  by_cases hc : c
  · simpa only [if_pos hc] using h hc
  · simpa only [if_neg hc] using h' hc

/-- A fact that holds of all related states may be used. -/
theorem of_forall {p : Prop} (hp : ∀ s t, P s t → p) (h : p → Rel P x y Q E) : Rel P x y Q E :=
  fun s t hst => h (hp s t hst) s t hst

/-- The results of related programs are equal when the triple says so. -/
theorem run_fst {y : Prog τ ε α} {Q : α → α → σ → τ → Prop} (h : Rel P x y Q E)
    (hQ : ∀ a b s t, Q a b s t → a = b) {s : σ} {t : τ} (hst : P s t) :
    (x.run s).1 = (y.run t).1 := by
  rcases h s t hst with ⟨a, b, s', t', hx, hy, hq⟩ | ⟨e, s', t', hx, hy, -⟩
  · rw [hx, hy, hQ a b s' t' hq]
  · rw [hx, hy]

/-- The states after related programs are related when both parts of the triple say so. -/
theorem run_snd {R : σ → τ → Prop} (h : Rel P x y Q E) (hQ : ∀ a b s t, Q a b s t → R s t)
    (hE : ∀ e s t, E e s t → R s t) {s : σ} {t : τ} (hst : P s t) :
    R (x.run s).2 (y.run t).2 := by
  rcases h s t hst with ⟨a, b, s', t', hx, hy, hq⟩ | ⟨e, s', t', hx, hy, he⟩
  · rw [hx, hy]
    exact hQ a b s' t' hq
  · rw [hx, hy]
    exact hE e s' t' he

/-- A run that succeeds is related to one with the same result. -/
theorem of_ok_left {y : Prog τ ε α} {R : σ → τ → Prop}
    (h : Rel P x y (fun a b s t => a = b ∧ R s t) E) {s s' : σ} {t : τ} {a : α} (hst : P s t)
    (hx : x.run s = (.ok a, s')) : ∃ t', y.run t = (.ok a, t') ∧ R s' t' := by
  rcases h s t hst with ⟨b, _, s₁, t₁, hx₁, hy, rfl, hR⟩ | ⟨e, s₁, t₁, hx₁, -⟩
  · rw [hx, Prod.mk.injEq, Except.ok.injEq] at hx₁
    obtain ⟨rfl, rfl⟩ := hx₁
    exact ⟨t₁, hy, hR⟩
  · rw [hx] at hx₁
    cases hx₁

theorem of_ok_right {y : Prog τ ε α} {R : σ → τ → Prop}
    (h : Rel P x y (fun a b s t => a = b ∧ R s t) E) {s : σ} {t t' : τ} {a : α} (hst : P s t)
    (hy : y.run t = (.ok a, t')) : ∃ s', x.run s = (.ok a, s') ∧ R s' t' := by
  rcases h s t hst with ⟨_, b, s₁, t₁, hx, hy₁, rfl, hR⟩ | ⟨e, s₁, t₁, -, hy₁, -⟩
  · rw [hy, Prod.mk.injEq, Except.ok.injEq] at hy₁
    obtain ⟨rfl, rfl⟩ := hy₁
    exact ⟨s₁, hx, hR⟩
  · rw [hy] at hy₁
    cases hy₁

end Rel

end Program
