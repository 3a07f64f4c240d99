import Mathlib.Algebra.BigOperators.Group.Finset.Basic
import Mathlib.Algebra.Order.BigOperators.Group.Finset
import Mathlib.Data.FinEnum
import Mathlib.Data.Set.Card

/-!
# Counters and balanced loads

A counter follows the number of keys with a property as single keys get or lose the property. A
counter of 32 bits follows it as long as not all of its `2 ^ 32` values are in use.

Loads are balanced when any two of them differ by at most one. Placing one unit on each of some
least loaded places keeps loads balanced.

## Main definitions

* `Loads.number`: the number of keys with a property.
* `Loads.Counts`: a counter of 32 bits shows the number of keys with a property.
* `Loads.Balanced`: loads that differ by at most one.

## Main results

* `Loads.Counts.insert`, `Loads.Counts.erase`: one key more or less.
* `Loads.Balanced.raise`: one unit more on the least loaded places.
* `Loads.Balanced.le_of_sum_le`: balanced loads with a small sum are small.
-/

namespace Loads

/-! ### Counting keys -/

section Counting

variable {K : Type*} {p q : K → Prop} {k : K} {w : UInt32}

/-- The number of keys with a property. -/
noncomputable def number (p : K → Prop) : ℕ :=
  {k | p k}.ncard

theorem number_congr (h : ∀ x, q x ↔ p x) : number q = number p :=
  congrArg number (funext fun x => propext (h x))

theorem number_of_forall_not (h : ∀ x, ¬p x) : number p = 0 := by
  have hset : {x | p x} = ∅ := Set.eq_empty_of_forall_notMem h
  rw [number, hset, Set.ncard_empty]

variable [Finite K]

theorem number_insert (hk : ¬p k) (h : ∀ x, q x ↔ x = k ∨ p x) : number q = number p + 1 := by
  have hset : {x | q x} = insert k {x | p x} := Set.ext h
  rw [number, hset]
  exact Set.ncard_insert_of_notMem (s := {x | p x}) hk

/-- A list of new keys. -/
theorem number_insert_list {ks : List K} (hnodup : ks.Nodup) (hks : ∀ k ∈ ks, ¬p k)
    (h : ∀ x, q x ↔ x ∈ ks ∨ p x) : number q = number p + ks.length := by
  induction ks generalizing q with
  | nil => exact number_congr fun x => (h x).trans (by simp)
  | cons k ks ih =>
    obtain ⟨hk, hnodup⟩ := List.nodup_cons.mp hnodup
    have hrest := ih (q := fun x => x ∈ ks ∨ p x) hnodup
      (fun x hx => hks x (List.mem_cons_of_mem _ hx)) fun _ => Iff.rfl
    have hnew : number q = number (fun x => x ∈ ks ∨ p x) + 1 :=
      number_insert (k := k) (not_or.mpr ⟨hk, hks k List.mem_cons_self⟩) fun x =>
        (h x).trans (by rw [List.mem_cons, or_assoc])
    rw [hnew, hrest, List.length_cons, Nat.add_assoc]

theorem number_erase (hk : p k) (h : ∀ x, q x ↔ x ≠ k ∧ p x) : number q + 1 = number p :=
  (number_insert (fun hq => ((h k).mp hq).1 rfl) fun x => by
    by_cases hx : x = k
    · simp [hx, hk]
    · simp [h, hx]).symm

theorem number_pos (hk : p k) : 0 < number p :=
  (Set.ncard_pos).mpr ⟨k, hk⟩

theorem number_le_of_subset (s : List K) (h : ∀ x, p x → x ∈ s) : number p ≤ s.length := by
  classical
  have hset : {x | p x} ⊆ ↑s.toFinset := fun x hx => List.mem_toFinset.mpr (h x hx)
  calc number p ≤ (↑s.toFinset : Set K).ncard := Set.ncard_le_ncard hset
    _ = s.toFinset.card := Set.ncard_coe_finset _
    _ ≤ s.length := List.toFinset_card_le s

/-- Some key does not have the property. -/
theorem number_lt (hk : ¬p k) : number p < Nat.card K := by
  rw [← Set.ncard_univ, number]
  exact Set.ncard_lt_ncard ⟨Set.subset_univ _, fun h => hk (h (Set.mem_univ k))⟩

omit [Finite K] in
theorem number_of_forall (h : ∀ x, p x) : number p = Nat.card K := by
  rw [← Set.ncard_univ, number]
  exact congrArg Set.ncard (Set.eq_univ_of_forall h)

/-- There are `2 ^ 32` keys of 32 bits. -/
theorem card_uint32 : Nat.card UInt32 = 2 ^ 32 :=
  Nat.card_eq_of_equiv_fin (FinEnum.equiv : UInt32 ≃ Fin (2 ^ 32))

theorem length_le_of_nodup {ks : List UInt32} (h : ks.Nodup) : ks.length ≤ 2 ^ 32 := by
  rw [← card_uint32, Nat.card_eq_fintype_card]
  exact h.length_le_card

/-- A counter shows the number of keys with a property, up to its overflow. -/
def Counts (w : UInt32) (p : K → Prop) : Prop :=
  w = UInt32.ofNat (number p)

namespace Counts

omit [Finite K] in
theorem congr (hw : Counts w p) (h : ∀ x, q x ↔ p x) : Counts w q := by
  rw [Counts, number_congr h]
  exact hw

omit [Finite K] in
theorem zero (h : ∀ x, ¬p x) : Counts 0 p := by
  rw [Counts, number_of_forall_not h]
  rfl

/-- One key more. -/
theorem insert (hw : Counts w p) (hk : ¬p k) (h : ∀ x, q x ↔ x = k ∨ p x) :
    Counts (w + 1) q := by
  rw [Counts] at hw ⊢
  rw [number_insert hk h, UInt32.ofNat_add, hw]
  rfl

/-- A list of new keys. -/
theorem insert_list {ks : List K} (hw : Counts w p) (hnodup : ks.Nodup) (hks : ∀ k ∈ ks, ¬p k)
    (h : ∀ x, q x ↔ x ∈ ks ∨ p x) : Counts (w + UInt32.ofNat ks.length) q := by
  rw [Counts] at hw ⊢
  rw [number_insert_list hnodup hks h, UInt32.ofNat_add, hw]

/-- One key less. -/
theorem erase (hw : Counts w p) (hk : p k) (h : ∀ x, q x ↔ x ≠ k ∧ p x) :
    Counts (w - 1) q := by
  rw [Counts] at hw ⊢
  rw [hw, ← number_erase hk h, UInt32.ofNat_add]
  exact UInt32.add_sub_cancel _ _

omit [Finite K] in
theorem toNat_of_lt (hw : Counts w p) (h : number p < 2 ^ 32) : w.toNat = number p := by
  rw [Counts] at hw
  rw [hw]
  exact UInt32.toNat_ofNat_of_lt' h

/-- A counter of keys of 32 bits is right as long as some key does not have the property. -/
theorem toNat_eq {p : UInt32 → Prop} {k : UInt32} (hw : Counts w p) (hk : ¬p k) :
    w.toNat = number p :=
  hw.toNat_of_lt (card_uint32 ▸ number_lt hk)

end Counts

end Counting

/-! ### Balanced loads -/

section Balance

variable {ι : Type*} {s : Finset ι} {load : ι → ℕ}

/-- The loads of any two places differ by at most one. -/
def Balanced (s : Finset ι) (load : ι → ℕ) : Prop :=
  ∀ a ∈ s, ∀ b ∈ s, load a ≤ load b + 1

variable [DecidableEq ι] {chosen : Finset ι}

/-- The loads after one unit more on the chosen places. -/
def raise (chosen : Finset ι) (load : ι → ℕ) (a : ι) : ℕ :=
  load a + if a ∈ chosen then 1 else 0

/-- **Placing on the least loaded places** keeps the loads balanced. -/
theorem Balanced.raise (h : Balanced s load)
    (hleast : ∀ a ∈ chosen, ∀ b ∈ s, b ∉ chosen → load a ≤ load b) :
    Balanced s (raise chosen load) := by
  intro a ha b hb
  have hab := h a ha b hb
  rw [Loads.raise, Loads.raise]
  by_cases hca : a ∈ chosen
  · by_cases hcb : b ∈ chosen
    · rw [if_pos hca, if_pos hcb]
      omega
    · have := hleast a hca b hb hcb
      rw [if_pos hca, if_neg hcb]
      omega
  · rw [if_neg hca]
    omega

theorem sum_raise (h : chosen ⊆ s) :
    ∑ a ∈ s, raise chosen load a = ∑ a ∈ s, load a + chosen.card := by
  have hfilter : s.filter (· ∈ chosen) = chosen := by
    rw [Finset.filter_mem_eq_inter, Finset.inter_eq_right.mpr h]
  simp only [raise]
  rw [Finset.sum_add_distrib, ← Finset.card_filter, hfilter]

omit [DecidableEq ι] in
/-- Balanced loads with a small sum are small. -/
theorem Balanced.le_of_sum_le (h : Balanced s load) {m : ℕ} (hsum : ∑ a ∈ s, load a ≤ s.card * m)
    {a : ι} (ha : a ∈ s) : load a ≤ m := by
  by_contra hlt
  have hge : ∀ b ∈ s, m ≤ load b := fun b hb => by
    have := h a ha b hb
    omega
  have : s.card * m < ∑ b ∈ s, load b := by
    calc s.card * m = ∑ _b ∈ s, m := by rw [Finset.sum_const, Nat.nsmul_eq_mul]
      _ < ∑ b ∈ s, load b := Finset.sum_lt_sum hge ⟨a, ha, by omega⟩
  omega

end Balance

end Loads
