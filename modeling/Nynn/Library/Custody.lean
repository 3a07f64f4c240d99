import Mathlib.Data.List.Nodup
import Mathlib.Logic.Function.Basic

/-!
# Items in the custody of places

Items are handed from place to place: each place has a list of them. Custody is linear when no item
is at two places, nor twice at one. Then an item that is taken off one place and put at another one
is at the new place only, and all other items stay where they are.

## Main definitions

* `Custody.At`: an item, by its key, is at a place.
* `Custody.Linear`: no item is at two places, nor twice at one.
* `Custody.put`: an item is put at a place, behind those that are there.
* `Custody.take`: the first item of a place is taken off.
* `Custody.HandsOver`: an item goes from one place to another one.

## Main results

* `Custody.Linear.put`, `Custody.Linear.take`: custody stays linear.
* `Custody.at_put_iff`, `Custody.at_take_iff`: where the items are afterwards.
* `Custody.HandsOver.forall_at`: what holds of the items at their places.
-/

namespace Custody

variable {P T K : Type*} {key : T → K} {store : P → List T} {p q : P} {t : T} {ts : List T} {k : K}

/-- The item with the key `k` is at the place `p`. -/
def At (key : T → K) (store : P → List T) (p : P) (k : K) : Prop := k ∈ (store p).map key

/-- No item is at two places, nor twice at one. -/
structure Linear (key : T → K) (store : P → List T) : Prop where
  nodup : ∀ p, ((store p).map key).Nodup
  unique : ∀ p q k, At key store p k → At key store q k → p = q

theorem Linear.empty : Linear key (fun _ : P => []) where
  nodup _ := List.nodup_nil
  unique _ _ _ h := absurd h List.not_mem_nil

theorem at_head (h : store p = t :: ts) : At key store p (key t) := by
  rw [At, h]
  exact List.mem_cons_self

/-- An item is put at a place, taken off one, or handed from one place to another one; `none` stands
for no place. -/
structure HandsOver (key : T → K) (store store' : P → List T) (k : K) (source target : Option P) :
    Prop where
  linear : Linear key store'
  at_iff : ∀ p k', At key store' p k' ↔ At key store p k' ∧ k' ≠ k ∨ k' = k ∧ target = some p
  held : ∀ p, At key store p k → source = some p

/-- What holds of the places and their items holds afterwards, when it stays true of the other items
and is true of the one that is handed over. -/
theorem HandsOver.forall_at {store' : P → List T} {source target : Option P} {R R' : P → K → Prop}
    (h : HandsOver key store store' k source target) (hR : ∀ p k', At key store p k' → R p k')
    (hothers : ∀ p k', k' ≠ k → R p k' → R' p k') (htarget : ∀ p, target = some p → R' p k) :
    ∀ p k', At key store' p k' → R' p k' := by
  intro p k' hp
  rcases (h.at_iff p k').mp hp with ⟨hold, hne⟩ | ⟨rfl, hp⟩
  · exact hothers p k' hne (hR p k' hold)
  · exact htarget p hp

variable [DecidableEq P]

/-- An item is put at a place, behind those that are there. -/
def put (store : P → List T) (p : P) (t : T) : P → List T :=
  Function.update store p (store p ++ [t])

/-- The first item of a place is taken off. -/
def take (store : P → List T) (p : P) : P → List T :=
  Function.update store p (store p).tail

theorem put_of_ne (hq : q ≠ p) : put store p t q = store q := Function.update_of_ne hq ..

theorem take_of_ne (hq : q ≠ p) : take store p q = store q := Function.update_of_ne hq ..

theorem put_self : put store p t p = store p ++ [t] := Function.update_self ..

theorem take_self : take store p p = (store p).tail := Function.update_self ..

theorem at_put_iff : At key (put store p t) q k ↔ At key store q k ∨ q = p ∧ k = key t := by
  rw [At, At, put]
  by_cases hq : q = p
  · subst hq
    rw [Function.update_self, List.map_append, List.mem_append]
    simp
  · rw [Function.update_of_ne hq]
    simp [hq]

/-- A new item is put at a place. -/
theorem Linear.put (h : Linear key store) (hnew : ∀ q, ¬At key store q (key t)) :
    Linear key (put store p t) where
  nodup q := by
    by_cases hq : q = p
    · subst hq
      rw [Custody.put, Function.update_self, List.map_append, List.map_singleton,
        List.nodup_append]
      refine ⟨h.nodup q, List.nodup_singleton _, fun k hk k' hk' e => hnew q ?_⟩
      rw [← List.mem_singleton.mp hk', ← e]
      exact hk
    · rw [Custody.put, Function.update_of_ne hq]
      exact h.nodup q
  unique q r k hq hr := by
    rw [at_put_iff] at hq hr
    rcases hq with hq | ⟨rfl, rfl⟩ <;> rcases hr with hr | ⟨rfl, hk⟩
    · exact h.unique q r k hq hr
    · exact absurd (hk ▸ hq) (hnew q)
    · exact absurd hr (hnew r)
    · rfl

/-- All items but the one that is taken stay where they are. -/
theorem at_take_iff (h : Linear key store) (hp : store p = t :: ts) :
    At key (take store p) q k ↔ At key store q k ∧ k ≠ key t := by
  by_cases hq : q = p
  · subst hq
    have hnodup := h.nodup q
    rw [hp, List.map_cons, List.nodup_cons] at hnodup
    rw [At, At, take, Function.update_self, hp, List.tail_cons, List.map_cons, List.mem_cons]
    constructor
    · intro hk
      exact ⟨Or.inr hk, fun e => hnodup.1 (e ▸ hk)⟩
    · rintro ⟨rfl | hk, hne⟩
      · exact absurd rfl hne
      · exact hk
  · rw [At, At, take, Function.update_of_ne hq]
    refine ⟨fun hk => ⟨hk, ?_⟩, And.left⟩
    rintro rfl
    exact hq (h.unique q p _ hk (at_head hp))

theorem take_sublist (q : P) : (take store p q).Sublist (store q) := by
  by_cases hq : q = p
  · subst hq
    rw [take_self]
    exact List.tail_sublist _
  · rw [take_of_ne hq]

/-- An item is taken off a place. -/
theorem Linear.take (h : Linear key store) : Linear key (take store p) where
  nodup q := (h.nodup q).sublist ((take_sublist q).map key)
  unique q r k hq hr :=
    h.unique q r k (((take_sublist q).map key).mem hq) (((take_sublist r).map key).mem hr)

theorem take_put_comm (hpq : p ≠ q) : take (put store q t) p = put (take store p) q t := by
  rw [take, put, take, put, Function.update_of_ne hpq, Function.update_of_ne hpq.symm,
    Function.update_comm hpq]

/-! ### Handing over -/

theorem HandsOver.added (h : Linear key store) (hnew : ∀ q, ¬At key store q (key t)) :
    HandsOver key store (put store p t) (key t) none (some p) where
  linear := h.put hnew
  at_iff q k := by
    rw [at_put_iff, Option.some.injEq, eq_comm (a := q), and_comm (a := p = q)]
    exact or_congr_left ⟨fun hq => ⟨hq, fun e => hnew q (e ▸ hq)⟩, And.left⟩
  held q hq := absurd hq (hnew q)

theorem HandsOver.removed (h : Linear key store) (hp : store p = t :: ts) :
    HandsOver key store (take store p) (key t) (some p) none where
  linear := h.take
  at_iff q k := by simp [at_take_iff h hp]
  held q hq := congrArg some (h.unique p q _ (at_head hp) hq)

theorem HandsOver.moved (h : Linear key store) (hp : store p = t :: ts) :
    HandsOver key store (put (take store p) q t) (key t) (some p) (some q) where
  linear := h.take.put fun r hr => ((at_take_iff h hp).mp hr).2 rfl
  at_iff r k := by
    rw [at_put_iff, at_take_iff h hp, Option.some.injEq, eq_comm (a := r), and_comm (a := q = r)]
  held r hr := congrArg some (h.unique p r _ (at_head hp) hr)

theorem mem_of_mem_take {t' : T} (h : t' ∈ take store p q) : t' ∈ store q := (take_sublist q).mem h

theorem mem_put {t' : T} : t' ∈ put store p t q ↔ t' ∈ store q ∨ q = p ∧ t' = t := by
  by_cases hq : q = p
  · subst hq
    rw [put, Function.update_self]
    simp
  · rw [put, Function.update_of_ne hq]
    simp [hq]

theorem nodup_put (h : (store q).Nodup) (hnew : t ∉ store q) : (put store p t q).Nodup := by
  by_cases hq : q = p
  · subst hq
    rw [put, Function.update_self]
    exact h.append (List.nodup_singleton t) (List.disjoint_singleton.mpr hnew)
  · rwa [put, Function.update_of_ne hq]

end Custody
