import Nynn.Library.Recency

/-!
# What a least recently used list still holds

A pair moves back by one place whenever another key is brought to the front of its list that was
behind it, or new. So a key that is not brought to the front again is there exactly as long as fewer
than `w` keys are. A wider list always holds what a narrower one holds that serves the same accesses,
although its reads find more and so move more pairs to the front.

## Main definitions

* `Recency.Includes`: a wider list holds the pairs of a narrower one, in the same order.
* `Recency.Subsumes`: the same for families of lists.

## Main results

* `Recency.resident_iff`: a key is held exactly while fewer than `w` other keys are touched.
* `Recency.Includes.apply`: the wider list goes on to hold what the narrower one holds.
* `Recency.Subsumes.results`: the wider lists return what the narrower ones return, or more.
-/

namespace Recency

variable {κ β ι : Type*} [DecidableEq κ]

/-! ### Exactly when a key is held -/

section Resident

variable [DecidableEq ι] {w : ℕ} {hash : κ → ι} {A : ι → List (κ × β)} {l₁ l₂ : List (κ × β)}
  {k : κ} {d : β}

/-- Another key that is brought to the front is in front of a pair that stays. -/
theorem apply_in_front {a : Access κ β} (hk : a.key ≠ k) (ht : a.Touches (l₁ ++ (k, d) :: l₂))
    (hstays : k ∈ keys (a.apply w (l₁ ++ (k, d) :: l₂)))
    (hnodup : (keys (l₁ ++ (k, d) :: l₂)).Nodup) :
    ∃ m₁ m₂, a.apply w (l₁ ++ (k, d) :: l₂) = m₁ ++ (k, d) :: m₂ ∧
      (keys m₁).toFinset = insert a.key (keys l₁).toFinset := by
  have hfront (d' : β) : ∃ m₁ m₂, (a.key, d') :: erase (l₁ ++ (k, d) :: l₂) a.key =
      m₁ ++ (k, d) :: m₂ ∧ (keys m₁).toFinset = insert a.key (keys l₁).toFinset := by
    refine ⟨(a.key, d') :: erase l₁ a.key, erase l₂ a.key, by simp [erase, hk.symm], ?_⟩
    ext x
    simp only [keys_cons, List.toFinset_cons, Finset.mem_insert, List.mem_toFinset, mem_keys, erase,
      List.mem_filter]
    by_cases hx : x = a.key <;> simp [hx]
  cases a with
  | read k' =>
    obtain ⟨d', hd'⟩ := Option.ne_none_iff_exists'.mp fun e => lookup_eq_none.mp e ht
    rw [Access.apply, fetch, hd']
    exact hfront d'
  | write k' d' =>
    by_cases hmem : k' ∈ keys (l₁ ++ (k, d) :: l₂)
    · rw [Access.apply, store, if_pos hmem]
      exact hfront d'
    · rcases lt_or_ge (l₁ ++ (k, d) :: l₂).length w with hlt | hle
      · rw [Access.apply, store_of_notMem_of_lt hmem hlt]
        exact ⟨(k', d') :: l₁, l₂, rfl, by simp [Access.key]⟩
      · rw [Access.apply, store_of_notMem_of_le hmem hle] at hstays ⊢
        -- the last pair is dropped, and it is another one
        rcases List.eq_nil_or_concat' l₂ with rfl | ⟨l₂, p, rfl⟩
        · rw [List.dropLast_concat, keys_cons] at hstays
          rw [keys_append, List.nodup_append] at hnodup
          rcases List.mem_cons.mp hstays with rfl | hl₁
          · exact absurd rfl hk
          · exact absurd rfl (hnodup.2.2 k hl₁ k (by simp))
        · refine ⟨(k', d') :: l₁, l₂, ?_, by simp [Access.key]⟩
          rw [← List.cons_append, ← List.append_assoc, List.dropLast_concat, List.cons_append]

/-- A key that is not held and not touched is not held. -/
theorem notMem_serveAll (as : List (Access κ β)) (hk : k ∉ keys (A (hash k)))
    (hnot : k ∉ touched w hash (hash k) A as) : k ∉ keys (serveAll w hash A as (hash k)) := by
  induction as generalizing A with
  | nil => exact hk
  | cons a as ih =>
    rw [serveAll_cons]
    have hsplit : ¬(hash a.key = hash k ∧ a.Touches (A (hash a.key)) ∧ a.key = k) ∧
        k ∉ touched w hash (hash k) (serve w hash A a) as := by
      rw [touched] at hnot
      split_ifs at hnot with hi
      · rw [Finset.mem_insert, not_or] at hnot
        exact ⟨fun h => hnot.1 h.2.2.symm, hnot.2⟩
      · exact ⟨fun h => hi ⟨h.1, h.2.1⟩, hnot⟩
    refine ih (fun hmem => ?_) hsplit.2
    obtain ⟨d, hd⟩ := mem_keys.mp hmem
    rcases mem_serve hd with ⟨hold, -⟩ | ⟨hi, rfl⟩
    · exact hk (mem_keys.mpr ⟨d, hold⟩)
    · exact hsplit.1 ⟨rfl, trivial, rfl⟩

/-- Who is held at the end has had fewer than `w` keys in front of it. -/
theorem card_lt_of_mem_serveAll (h : ∀ i, Bounded w (A i)) (hw : 0 < w) (as : List (Access κ β))
    (hA : A (hash k) = l₁ ++ (k, d) :: l₂) (hnot : k ∉ touched w hash (hash k) A as)
    (hmem : k ∈ keys (serveAll w hash A as (hash k))) :
    ((keys l₁).toFinset ∪ touched w hash (hash k) A as).card < w := by
  induction as generalizing A l₁ l₂ d with
  | nil =>
    have hlen := (h (hash k)).length_le
    rw [hA, List.length_append, List.length_cons] at hlen
    rw [touched, Finset.union_empty]
    have hle := List.toFinset_card_le (keys l₁)
    rw [length_keys] at hle
    omega
  | cons a as ih =>
    rw [serveAll_cons] at hmem
    have hb : ∀ i, Bounded w (serve w hash A a i) := Bounded.serve h hw a
    rw [touched] at hnot ⊢
    by_cases hi : hash a.key = hash k ∧ a.Touches (A (hash a.key))
    · rw [if_pos hi] at hnot ⊢
      rw [Finset.mem_insert, not_or] at hnot
      obtain ⟨hik, ht⟩ := hi
      have hself : serve w hash A a (hash k) = a.apply w (l₁ ++ (k, d) :: l₂) := by
        rw [← hik, serve_self, hik, hA]
      have hstays : k ∈ keys (serve w hash A a (hash k)) := by
        by_contra hgone
        exact notMem_serveAll as hgone hnot.2 hmem
      obtain ⟨m₁, m₂, hm, hkeys⟩ := apply_in_front (Ne.symm hnot.1) (hA ▸ hik ▸ ht)
        (hself ▸ hstays) (hA ▸ (h (hash k)).nodup)
      have hcard := ih hb (hself.trans hm) hnot.2 hmem
      rwa [hkeys, Finset.insert_union, ← Finset.union_insert] at hcard
    · rw [if_neg hi] at hnot ⊢
      have hsame : serve w hash A a (hash k) = l₁ ++ (k, d) :: l₂ := by
        by_cases hik : hash k = hash a.key
        · have ht : ¬a.Touches (A (hash a.key)) := fun ht => hi ⟨hik.symm, ht⟩
          rw [hik, serve_self, apply_of_not_touches ht, ← hik, hA]
        · rw [serve_of_ne hik, hA]
      exact ih hb hsame hnot hmem

/-- **Exact residency.** A key that was brought to the front, and not again, is held exactly as long
as fewer than `w` keys of its list were touched since. -/
theorem resident_iff (h : ∀ i, Bounded w (A i)) (hw : 0 < w) {a : Access κ β}
    (ht : a.Touches (A (hash a.key))) (as : List (Access κ β))
    (hnot : a.key ∉ touched w hash (hash a.key) (serve w hash A a) as) :
    a.key ∈ keys (serveAll w hash A (a :: as) (hash a.key)) ↔
      (touched w hash (hash a.key) (serve w hash A a) as).card < w := by
  constructor
  · intro hmem
    obtain ⟨d, m, hm⟩ := apply_head (w := w) ht
    have hfront : serve w hash A a (hash a.key) = [] ++ (a.key, d) :: m :=
      (serve_self A a).trans hm
    simpa using card_lt_of_mem_serveAll (Bounded.serve h hw a) hw as hfront hnot hmem
  · intro hcard
    exact resident h hw ht as ((Finset.card_le_card (Finset.erase_subset _ _)).trans_lt hcard)

theorem results_concat (as : List (Access κ β)) (a : Access κ β) :
    results w hash A (as ++ [a]) =
      results w hash A as ++ [a.result (serveAll w hash A as (hash a.key))] := by
  induction as generalizing A with
  | nil => rfl
  | cons b as ih => rw [List.cons_append, results, ih, results, List.cons_append, serveAll_cons]

end Resident

/-! ### Lists of two widths -/

/-- The wider list holds the pairs of the narrower one, in the same order; as long as the narrower
one is not full, there are no others. -/
structure Includes (w₁ : ℕ) (l₁ l₂ : List (κ × β)) : Prop where
  sublist : l₁.Sublist l₂
  eq_of_lt : l₁.length < w₁ → l₁ = l₂

section Includes

variable {w₁ w₂ : ℕ} {l₁ l₂ : List (κ × β)} {k : κ} {d : β}

omit [DecidableEq κ] in
theorem dropLast_sublist_dropLast (h : l₁.Sublist l₂) : l₁.dropLast.Sublist l₂.dropLast := by
  have htail := h.reverse.tail
  rwa [List.tail_reverse, List.tail_reverse, List.reverse_sublist] at htail

theorem erase_sublist (h : l₁.Sublist l₂) : (erase l₁ k).Sublist (erase l₂ k) := h.filter _

theorem length_le_length_erase (h : (keys l₁).Nodup) (k : κ) :
    l₁.length ≤ (erase l₁ k).length + 1 := by
  by_cases hk : k ∈ keys l₁
  · obtain ⟨m₁, d, m₂, rfl⟩ := keys_split hk
    rw [erase_split h]
    simp only [List.length_append, List.length_cons]
    omega
  · rw [erase_of_notMem hk]
    exact Nat.le_succ _

/-- An access does not make a list shorter. -/
theorem length_le_length_apply {w : ℕ} (h : (keys l₁).Nodup) (a : Access κ β) :
    l₁.length ≤ (a.apply w l₁).length := by
  cases a with
  | read k =>
    rw [Access.apply, fetch]
    split
    · exact le_rfl
    · exact length_le_length_erase h k
  | write k d =>
    rw [Access.apply, store]
    split_ifs
    · exact length_le_length_erase h k
    · exact Nat.le_succ _
    · rw [List.length_cons, List.length_dropLast]
      omega

/-- A list with room for one more pair does the same at both widths. -/
theorem apply_eq_of_lt {l : List (κ × β)} (h₁ : l.length < w₁) (h₂ : l.length < w₂)
    (a : Access κ β) : a.apply w₁ l = a.apply w₂ l := by
  cases a with
  | read k => rfl
  | write k d =>
    rw [Access.apply, Access.apply, store, store, if_pos h₁, if_pos h₂]

omit [DecidableEq κ] in
theorem Includes.keys_subset (h : Includes w₁ l₁ l₂) (hk : k ∈ keys l₁) : k ∈ keys l₂ :=
  (h.sublist.map Prod.fst).subset hk

/-- The wider list finds what the narrower one finds. -/
theorem Includes.lookup (h : Includes w₁ l₁ l₂) (hnodup : (keys l₂).Nodup)
    (hd : lookup l₁ k = some d) : Recency.lookup l₂ k = some d := by
  obtain ⟨m₁, m₂, rfl⟩ := List.append_of_mem (h.sublist.subset (mem_of_lookup hd))
  exact lookup_split hnodup

/-- The pairs of a full list after an access. -/
theorem Includes.sublist_apply (h : Includes w₁ l₁ l₂) (hnodup : (keys l₂).Nodup)
    (hfull : w₁ ≤ l₁.length) (a : Access κ β) :
    (a.apply w₁ l₁).Sublist (a.apply w₂ l₂) := by
  have hsub (k : κ) (hk : k ∉ keys l₁) : l₁.Sublist (erase l₂ k) := by
    have herase := erase_sublist (k := k) h.sublist
    rwa [erase_of_notMem hk] at herase
  cases a with
  | read k =>
    rw [Access.apply, Access.apply, fetch, fetch]
    cases hl₁ : Recency.lookup l₁ k with
    | some d =>
      rw [h.lookup hnodup hl₁]
      exact (erase_sublist h.sublist).cons_cons _
    | none =>
      cases Recency.lookup l₂ k with
      | none => exact h.sublist
      | some d => exact (hsub k (lookup_eq_none.mp hl₁)).cons _
  | write k d =>
    rw [Access.apply, Access.apply, store, store]
    by_cases hk : k ∈ keys l₁
    · rw [if_pos hk, if_pos (h.keys_subset hk)]
      exact (erase_sublist h.sublist).cons_cons _
    · rw [if_neg hk, if_neg hfull.not_gt]
      split_ifs with hk₂ hroom
      · exact ((List.dropLast_sublist l₁).trans (hsub k hk)).cons_cons _
      · exact ((List.dropLast_sublist l₁).trans h.sublist).cons_cons _
      · exact (dropLast_sublist_dropLast h.sublist).cons_cons _

/-- **Step lemma.** After an access, the wider list holds what the narrower one holds. -/
protected theorem Includes.apply (h : Includes w₁ l₁ l₂) (h₂ : Bounded w₂ l₂) (hw : w₁ ≤ w₂)
    (a : Access κ β) : Includes w₁ (a.apply w₁ l₁) (a.apply w₂ l₂) := by
  rcases lt_or_ge l₁.length w₁ with hlt | hfull
  · obtain rfl := h.eq_of_lt hlt
    rw [apply_eq_of_lt hlt (hlt.trans_le hw) a]
    exact ⟨List.Sublist.refl _, fun _ => rfl⟩
  · refine ⟨h.sublist_apply h₂.nodup hfull a, fun hlt => ?_⟩
    have hnodup : (keys l₁).Nodup := h₂.nodup.sublist (h.sublist.map Prod.fst)
    exact absurd (hfull.trans (length_le_length_apply hnodup a)) hlt.not_ge

end Includes

section Families

variable {ι₁ ι₂ : Type*} [DecidableEq ι₁] [DecidableEq ι₂] {w₁ w₂ : ℕ} {hash₁ : κ → ι₁}
  {hash₂ : κ → ι₂} {A₁ : ι₁ → List (κ × β)} {A₂ : ι₂ → List (κ × β)}

/-- The lists of the second family hold what those of the first one hold. -/
def Subsumes (w₁ : ℕ) (hash₁ : κ → ι₁) (hash₂ : κ → ι₂) (A₁ : ι₁ → List (κ × β))
    (A₂ : ι₂ → List (κ × β)) : Prop :=
  ∀ k, Includes w₁ (A₁ (hash₁ k)) (A₂ (hash₂ k))

theorem Subsumes.serve (h : Subsumes w₁ hash₁ hash₂ A₁ A₂) (h₂ : ∀ i, Bounded w₂ (A₂ i))
    (hw : w₁ ≤ w₂) (hhash : ∀ k k', hash₁ k = hash₁ k' ↔ hash₂ k = hash₂ k') (a : Access κ β) :
    Subsumes w₁ hash₁ hash₂ (serve w₁ hash₁ A₁ a) (serve w₂ hash₂ A₂ a) := by
  intro k
  by_cases hk : hash₁ k = hash₁ a.key
  · rw [hk, (hhash k a.key).mp hk, serve_self, serve_self]
    exact (h a.key).apply (h₂ _) hw a
  · rw [serve_of_ne hk, serve_of_ne fun he => hk ((hhash k a.key).mpr he)]
    exact h k

/-- **Run lemma.** Lists that are wider and have the same keys together return what the narrower ones
return, or more. -/
theorem Subsumes.results (h : Subsumes w₁ hash₁ hash₂ A₁ A₂) (h₂ : ∀ i, Bounded w₂ (A₂ i))
    (hw₂ : 0 < w₂) (hw : w₁ ≤ w₂) (hhash : ∀ k k', hash₁ k = hash₁ k' ↔ hash₂ k = hash₂ k')
    (as : List (Access κ β)) :
    List.Forall₂ (fun r₁ r₂ => ∀ d, r₁ = some d → r₂ = some d) (results w₁ hash₁ A₁ as)
      (results w₂ hash₂ A₂ as) := by
  induction as generalizing A₁ A₂ with
  | nil => exact .nil
  | cons a as ih =>
    refine .cons (fun d hd => ?_) (ih (h.serve h₂ hw hhash a) (Bounded.serve h₂ hw₂ a))
    cases a with
    | read k => exact (h k).lookup (h₂ _).nodup hd
    | write k d' => cases hd

end Families

end Recency
