import Mathlib.Data.Finset.Card
import Mathlib.Data.Finset.Insert
import Mathlib.Data.List.Nodup
import Mathlib.Logic.Function.Basic

/-!
# Least recently used lists

A least recently used list of width `w` holds at most `w` pairs of a key and a value, the most
recently used pair first. A read that finds its key moves the pair to the front, a write puts its
pair at the front and drops the last pair when the key is new and the list is full. A family of
such lists is addressed through a hash function of the keys.

## Main definitions

* `Recency.Access`: reads and writes, with `Recency.Access.apply` and `Recency.Access.result`.
* `Recency.serve`, `Recency.serveAll`: accesses to a family of lists.
* `Recency.lastWrite`: the value that the last write of a key wrote.
* `Recency.touched`: the keys that a run of accesses moves or puts to the front of a list.

## Main results

* `Recency.Bounded.serveAll`: the lists keep their width and hold no key twice.
* `Recency.lastWrite_of_mem`: every pair holds the value of the last write of its key.
* `Recency.resident`: a key stays while fewer than `w` other keys are touched.
-/

namespace Recency

variable {κ β ι : Type*}

/-- A read or a write of a key. -/
inductive Access (κ β : Type*)
  | read (k : κ)
  | write (k : κ) (d : β)

/-- The key of an access. -/
def Access.key : Access κ β → κ
  | .read k => k
  | .write k _ => k

/-- The keys of a list of pairs. -/
def keys (l : List (κ × β)) : List κ := l.map Prod.fst

@[simp] theorem keys_nil : keys ([] : List (κ × β)) = [] := rfl

@[simp] theorem keys_cons (p : κ × β) (l : List (κ × β)) : keys (p :: l) = p.1 :: keys l := rfl

@[simp] theorem keys_append (l₁ l₂ : List (κ × β)) : keys (l₁ ++ l₂) = keys l₁ ++ keys l₂ :=
  List.map_append

theorem length_keys (l : List (κ × β)) : (keys l).length = l.length := List.length_map _

theorem mem_keys {l : List (κ × β)} {k : κ} : k ∈ keys l ↔ ∃ d, (k, d) ∈ l := by
  simp [keys]

variable [DecidableEq κ]

/-! ### One list -/

/-- The value that the list holds for a key. -/
def lookup (l : List (κ × β)) (k : κ) : Option β := (l.find? fun p => p.1 = k).map Prod.snd

/-- The list without a key. -/
def erase (l : List (κ × β)) (k : κ) : List (κ × β) := l.filter fun p => p.1 ≠ k

/-- A read of a key: a pair that is found moves to the front. -/
def fetch (l : List (κ × β)) (k : κ) : List (κ × β) :=
  match lookup l k with
  | none => l
  | some d => (k, d) :: erase l k

/-- A write of a key: its pair moves or is put to the front, in place of the last pair when the key
is new and the list is full. -/
def store (w : ℕ) (l : List (κ × β)) (k : κ) (d : β) : List (κ × β) :=
  if k ∈ keys l then (k, d) :: erase l k
  else if l.length < w then (k, d) :: l
  else (k, d) :: l.dropLast

/-- The list after an access. -/
def Access.apply (w : ℕ) (l : List (κ × β)) : Access κ β → List (κ × β)
  | .read k => fetch l k
  | .write k d => store w l k d

/-- What an access returns: the value that a read finds. -/
def Access.result (l : List (κ × β)) : Access κ β → Option β
  | .read k => lookup l k
  | .write _ _ => none

/-- The access moves or puts its key to the front: it is a write or a read that finds its key. -/
def Access.Touches (l : List (κ × β)) : Access κ β → Prop
  | .read k => k ∈ keys l
  | .write _ _ => True

instance (l : List (κ × β)) : (a : Access κ β) → Decidable (a.Touches l)
  | .read k => inferInstanceAs (Decidable (k ∈ keys l))
  | .write _ _ => inferInstanceAs (Decidable True)

/-- At most `w` pairs, no key twice. -/
structure Bounded (w : ℕ) (l : List (κ × β)) : Prop where
  length_le : l.length ≤ w
  nodup : (keys l).Nodup

section List

variable {w : ℕ} {l l₁ l₂ : List (κ × β)} {k k' : κ} {d d' : β}

theorem lookup_eq_none : lookup l k = none ↔ k ∉ keys l := by
  simp only [lookup, Option.map_eq_none_iff, List.find?_eq_none, mem_keys, not_exists]
  constructor
  · intro h d hd
    simpa using h _ hd
  · intro h p hp
    have hne : p.1 ≠ k := fun e => h p.2 (e ▸ hp)
    simpa using hne

theorem mem_keys_of_lookup (h : lookup l k = some d) : k ∈ keys l := by
  by_contra hk
  rw [lookup_eq_none.mpr hk] at h
  cases h

theorem mem_of_lookup (h : lookup l k = some d) : (k, d) ∈ l := by
  obtain ⟨p, hp, rfl⟩ := Option.map_eq_some_iff.mp h
  have hk : p.1 = k := by simpa using List.find?_some hp
  exact hk ▸ List.mem_of_find?_eq_some hp

omit [DecidableEq κ] in
theorem keys_split (h : k ∈ keys l) : ∃ l₁ d l₂, l = l₁ ++ (k, d) :: l₂ := by
  obtain ⟨d, hd⟩ := mem_keys.mp h
  obtain ⟨l₁, l₂, rfl⟩ := List.append_of_mem hd
  exact ⟨l₁, d, l₂, rfl⟩

omit [DecidableEq κ] in
/-- The keys on both sides of a pair are other keys. -/
private theorem keys_ne (h : (keys (l₁ ++ (k, d) :: l₂)).Nodup) :
    k ∉ keys l₁ ∧ k ∉ keys l₂ := by
  rw [keys_append, keys_cons, List.nodup_append] at h
  exact ⟨fun hk => h.2.2 k hk k List.mem_cons_self rfl, (List.nodup_cons.mp h.2.1).1⟩

theorem erase_of_notMem (h : k ∉ keys l) : erase l k = l := by
  refine List.filter_eq_self.mpr fun p hp => ?_
  have hne : p.1 ≠ k := fun e => h (e ▸ mem_keys.mpr ⟨p.2, hp⟩)
  simpa using hne

theorem lookup_split (h : (keys (l₁ ++ (k, d) :: l₂)).Nodup) :
    lookup (l₁ ++ (k, d) :: l₂) k = some d := by
  have hnone : l₁.find? (fun p => p.1 = k) = none :=
    Option.map_eq_none_iff.mp (lookup_eq_none.mpr (keys_ne h).1)
  rw [lookup, List.find?_append, hnone]
  simp

theorem erase_split (h : (keys (l₁ ++ (k, d) :: l₂)).Nodup) :
    erase (l₁ ++ (k, d) :: l₂) k = l₁ ++ l₂ := by
  have hside : erase (l₁ ++ (k, d) :: l₂) k = erase l₁ k ++ erase l₂ k := by simp [erase]
  rw [hside, erase_of_notMem (keys_ne h).1, erase_of_notMem (keys_ne h).2]

theorem fetch_of_notMem (h : k ∉ keys l) : fetch l k = l := by
  rw [fetch, lookup_eq_none.mpr h]

theorem fetch_split (h : (keys (l₁ ++ (k, d) :: l₂)).Nodup) :
    fetch (l₁ ++ (k, d) :: l₂) k = (k, d) :: (l₁ ++ l₂) := by
  rw [fetch, lookup_split h, erase_split h]

theorem store_split (h : (keys (l₁ ++ (k, d) :: l₂)).Nodup) (d' : β) :
    store w (l₁ ++ (k, d) :: l₂) k d' = (k, d') :: (l₁ ++ l₂) := by
  rw [store, if_pos (by simp), erase_split h]

theorem store_of_notMem_of_lt (h : k ∉ keys l) (hw : l.length < w) :
    store w l k d = (k, d) :: l := by
  rw [store, if_neg h, if_pos hw]

theorem store_of_notMem_of_le (h : k ∉ keys l) (hw : w ≤ l.length) :
    store w l k d = (k, d) :: l.dropLast := by
  rw [store, if_neg h, if_neg hw.not_gt]

omit [DecidableEq κ] in
theorem Bounded.nil (w : ℕ) : Bounded w ([] : List (κ × β)) := ⟨Nat.zero_le w, List.nodup_nil⟩

omit [DecidableEq κ] in
/-- Moving a pair to the front, with any value. -/
private theorem Bounded.move (h : Bounded w (l₁ ++ (k, d) :: l₂)) (d' : β) :
    Bounded w ((k, d') :: (l₁ ++ l₂)) := by
  have hperm : (keys (l₁ ++ (k, d) :: l₂)).Perm (keys ((k, d') :: (l₁ ++ l₂))) := by
    simp only [keys_append, keys_cons]
    exact List.perm_middle
  refine ⟨?_, hperm.nodup_iff.mp h.nodup⟩
  have hlen := h.length_le
  simp only [List.length_append, List.length_cons] at hlen ⊢
  omega

/-- An access keeps the list bounded. -/
theorem Bounded.apply (h : Bounded w l) (hw : 0 < w) (a : Access κ β) :
    Bounded w (a.apply w l) := by
  cases a with
  | read k =>
    by_cases hk : k ∈ keys l
    · obtain ⟨l₁, d, l₂, rfl⟩ := keys_split hk
      rw [Access.apply, fetch_split h.nodup]
      exact h.move d
    · rwa [Access.apply, fetch_of_notMem hk]
  | write k d =>
    by_cases hk : k ∈ keys l
    · obtain ⟨l₁, d', l₂, rfl⟩ := keys_split hk
      rw [Access.apply, store_split h.nodup]
      exact h.move d
    · rcases lt_or_ge l.length w with hlt | hle
      · rw [Access.apply, store_of_notMem_of_lt hk hlt]
        exact ⟨hlt, List.nodup_cons.mpr ⟨hk, h.nodup⟩⟩
      · rw [Access.apply, store_of_notMem_of_le hk hle]
        have hsub : (keys l.dropLast).Sublist (keys l) := (List.dropLast_sublist l).map _
        refine ⟨?_, List.nodup_cons.mpr ⟨fun hm => hk (hsub.subset hm), h.nodup.sublist hsub⟩⟩
        rw [List.length_cons, List.length_dropLast]
        have := h.length_le
        omega

/-- The pairs after an access are pairs from before or the pair that was written. -/
theorem mem_apply {a : Access κ β} {p : κ × β} (h : p ∈ a.apply w l) :
    p ∈ l ∧ (∀ d, a ≠ .write p.1 d) ∨ a = .write p.1 p.2 := by
  have hold : ∀ {m : List (κ × β)} {k : κ}, p ∈ erase m k → p ∈ m ∧ p.1 ≠ k := fun hp => by
    simpa [erase] using hp
  cases a with
  | read k =>
    refine Or.inl ⟨?_, nofun⟩
    rw [Access.apply, fetch] at h
    rcases hl : lookup l k with _ | d
    · rwa [hl] at h
    · rw [hl] at h
      rcases List.mem_cons.mp h with rfl | h
      · exact mem_of_lookup hl
      · exact (hold h).1
  | write k d =>
    have hne : p.1 ≠ k → ∀ d', Access.write k d ≠ .write p.1 d' := by
      rintro hpk d' ⟨⟩
      exact hpk rfl
    rw [Access.apply, store] at h
    split_ifs at h with hk hw
    · rcases List.mem_cons.mp h with rfl | h
      · exact Or.inr rfl
      · exact Or.inl ⟨(hold h).1, hne (hold h).2⟩
    · rcases List.mem_cons.mp h with rfl | h
      · exact Or.inr rfl
      · exact Or.inl ⟨h, hne fun e => hk (e ▸ mem_keys.mpr ⟨p.2, h⟩)⟩
    · rcases List.mem_cons.mp h with rfl | h
      · exact Or.inr rfl
      · have hl := List.mem_of_mem_dropLast h
        exact Or.inl ⟨hl, hne fun e => hk (e ▸ mem_keys.mpr ⟨p.2, hl⟩)⟩

/-- A touching access brings its key to the front. -/
theorem apply_head {a : Access κ β} (h : a.Touches l) :
    ∃ d m, a.apply w l = (a.key, d) :: m := by
  cases a with
  | read k =>
    obtain ⟨d, hd⟩ := Option.ne_none_iff_exists'.mp fun e => lookup_eq_none.mp e h
    exact ⟨d, erase l k, by rw [Access.apply, fetch, hd]; rfl⟩
  | write k d =>
    rw [Access.apply, store]
    split_ifs
    · exact ⟨d, _, rfl⟩
    · exact ⟨d, _, rfl⟩
    · exact ⟨d, _, rfl⟩

/-- An access that touches nothing changes nothing. -/
theorem apply_of_not_touches {a : Access κ β} (h : ¬a.Touches l) : a.apply w l = l := by
  cases a with
  | read k => exact fetch_of_notMem h
  | write k d => exact absurd trivial h

/-- An access of another key pushes at most that key in front of a pair, unless the pair was the
last one of a full list. -/
private theorem apply_ahead {a : Access κ β} (h : Bounded w (l₁ ++ (k, d) :: l₂))
    (hk : a.key ≠ k) (ht : a.Touches (l₁ ++ (k, d) :: l₂))
    (hroom : a.key ∈ keys (l₁ ++ (k, d) :: l₂) ∨ l₁.length + 1 < w) :
    ∃ m₁ m₂, a.apply w (l₁ ++ (k, d) :: l₂) = m₁ ++ (k, d) :: m₂ ∧
      ∀ x ∈ keys m₁, x = a.key ∨ x ∈ keys l₁ := by
  have hfront : ∀ d', ∃ m₁ m₂, (a.key, d') :: erase (l₁ ++ (k, d) :: l₂) a.key =
      m₁ ++ (k, d) :: m₂ ∧ ∀ x ∈ keys m₁, x = a.key ∨ x ∈ keys l₁ := by
    intro d'
    refine ⟨(a.key, d') :: erase l₁ a.key, erase l₂ a.key, ?_, ?_⟩
    · simp [erase, hk.symm]
    · intro x hx
      rcases List.mem_cons.mp hx with rfl | hx
      · exact Or.inl rfl
      · exact Or.inr ((List.filter_sublist.map _).subset hx)
  cases a with
  | read k' =>
    obtain ⟨d', hd'⟩ := Option.ne_none_iff_exists'.mp fun e => lookup_eq_none.mp e ht
    rw [Access.apply, fetch, hd']
    exact hfront d'
  | write k' d' =>
    by_cases hmem : k' ∈ keys (l₁ ++ (k, d) :: l₂)
    · rw [Access.apply, store, if_pos hmem]
      exact hfront d'
    · rcases lt_or_ge (l₁ ++ (k, d) :: l₂).length w with hlt | hle
      · rw [Access.apply, store_of_notMem_of_lt hmem hlt]
        exact ⟨(k', d') :: l₁, l₂, rfl, fun x hx => List.mem_cons.mp hx⟩
      · rw [Access.apply, store_of_notMem_of_le hmem hle]
        have hlen : l₂ ≠ [] := by
          rintro rfl
          have := hroom.resolve_left hmem
          simp only [List.length_append, List.length_cons, List.length_nil] at hle
          omega
        refine ⟨(k', d') :: l₁, l₂.dropLast, ?_, fun x hx => List.mem_cons.mp hx⟩
        rw [List.dropLast_append_of_ne_nil (List.cons_ne_nil _ _),
          List.dropLast_cons_of_ne_nil hlen, List.cons_append]

end List

/-! ### A family of lists -/

variable [DecidableEq ι] {w : ℕ} {hash : κ → ι}

/-- The family after an access: only the list of the key is used. -/
def serve (w : ℕ) (hash : κ → ι) (A : ι → List (κ × β)) (a : Access κ β) : ι → List (κ × β) :=
  Function.update A (hash a.key) (a.apply w (A (hash a.key)))

/-- The family after a run of accesses. -/
def serveAll (w : ℕ) (hash : κ → ι) (A : ι → List (κ × β)) (as : List (Access κ β)) :
    ι → List (κ × β) :=
  as.foldl (serve w hash) A

/-- What the accesses of a run return. -/
def results (w : ℕ) (hash : κ → ι) : (ι → List (κ × β)) → List (Access κ β) → List (Option β)
  | _, [] => []
  | A, a :: as => a.result (A (hash a.key)) :: results w hash (serve w hash A a) as

/-- The value of the last write of a key in a run. -/
def lastWrite (k : κ) : List (Access κ β) → Option β
  | [] => none
  | .read _ :: as => lastWrite k as
  | .write k' d :: as => (lastWrite k as).or (if k' = k then some d else none)

/-- The keys that a run moves or puts to the front of list `i`. -/
def touched (w : ℕ) (hash : κ → ι) (i : ι) : (ι → List (κ × β)) → List (Access κ β) → Finset κ
  | _, [] => ∅
  | A, a :: as =>
    if hash a.key = i ∧ a.Touches (A (hash a.key)) then
      insert a.key (touched w hash i (serve w hash A a) as)
    else touched w hash i (serve w hash A a) as

variable {A : ι → List (κ × β)}

theorem serveAll_cons (A : ι → List (κ × β)) (a : Access κ β) (as : List (Access κ β)) :
    serveAll w hash A (a :: as) = serveAll w hash (serve w hash A a) as := rfl

theorem serveAll_append (A : ι → List (κ × β)) (as bs : List (Access κ β)) :
    serveAll w hash A (as ++ bs) = serveAll w hash (serveAll w hash A as) bs :=
  List.foldl_append

theorem serve_of_ne {a : Access κ β} {i : ι} (h : i ≠ hash a.key) : serve w hash A a i = A i :=
  Function.update_of_ne h _ _

theorem serve_self (A : ι → List (κ × β)) (a : Access κ β) :
    serve w hash A a (hash a.key) = a.apply w (A (hash a.key)) :=
  Function.update_self _ _ _

/-- The pairs of a list after an access are pairs from before or the pair that was written. -/
theorem mem_serve {a : Access κ β} {i : ι} {p : κ × β} (h : p ∈ serve w hash A a i) :
    p ∈ A i ∧ (i = hash a.key → ∀ d, a ≠ .write p.1 d) ∨ i = hash a.key ∧ a = .write p.1 p.2 := by
  by_cases hi : i = hash a.key
  · subst hi
    rw [serve_self] at h
    exact (mem_apply h).imp (fun hold => ⟨hold.1, fun _ => hold.2⟩) fun hwrite => ⟨rfl, hwrite⟩
  · rw [serve_of_ne hi] at h
    exact Or.inl ⟨h, fun hi' => absurd hi' hi⟩

/-- Every list of the family is bounded. -/
theorem Bounded.serve (h : ∀ i, Bounded w (A i)) (hw : 0 < w) (a : Access κ β) (i : ι) :
    Bounded w (serve w hash A a i) := by
  by_cases hi : i = hash a.key
  · subst hi
    rw [serve_self]
    exact (h _).apply hw a
  · rw [serve_of_ne hi]
    exact h i

theorem Bounded.serveAll (h : ∀ i, Bounded w (A i)) (hw : 0 < w) (as : List (Access κ β)) :
    ∀ i, Bounded w (serveAll w hash A as i) := by
  induction as generalizing A with
  | nil => exact h
  | cons a as ih => exact ih fun i => Bounded.serve h hw a i

/-- The lists only hold keys that hash to them. -/
theorem hash_of_mem_serveAll (h : ∀ i, ∀ k ∈ keys (A i), hash k = i) (as : List (Access κ β)) :
    ∀ i, ∀ k ∈ keys (serveAll w hash A as i), hash k = i := by
  induction as generalizing A with
  | nil => exact h
  | cons a as ih =>
    refine ih fun i k hk => ?_
    obtain ⟨d, hd⟩ := mem_keys.mp hk
    rcases mem_serve hd with ⟨hold, -⟩ | ⟨rfl, rfl⟩
    · exact h _ _ (mem_keys.mpr ⟨d, hold⟩)
    · rfl

theorem lastWrite_concat (k : κ) (as : List (Access κ β)) (a : Access κ β) :
    lastWrite k (as ++ [a]) = match a with
      | .write k' d => if k' = k then some d else lastWrite k as
      | .read _ => lastWrite k as := by
  induction as with
  | nil => cases a with
    | read k' => rfl
    | write k' d => by_cases hk : k' = k <;> simp [lastWrite, hk]
  | cons b as ih =>
    rw [List.cons_append]
    cases b with
    | read k'' => rw [lastWrite, ih, lastWrite]
    | write k'' d'' =>
      rw [lastWrite, ih, lastWrite]
      cases a with
      | read k' => rfl
      | write k' d => by_cases hk : k' = k <;> simp [hk]

/-- **Values.** In a run from empty lists every pair holds the value of the last write of its
key. -/
theorem lastWrite_of_mem (as : List (Access κ β)) {i : ι} {p : κ × β}
    (h : p ∈ serveAll w hash (fun _ => []) as i) : lastWrite p.1 as = some p.2 := by
  induction as using List.reverseRecOn generalizing i with
  | nil => cases h
  | append_singleton as a ih =>
    rw [serveAll_append] at h
    change p ∈ serve w hash _ a i at h
    rw [lastWrite_concat]
    by_cases hi : i = hash a.key
    · subst hi
      rw [serve_self] at h
      rcases mem_apply h with ⟨hold, hne⟩ | hwrite
      · cases a with
        | read k' => exact ih hold
        | write k' d =>
          have hk : k' ≠ p.1 := fun e => hne d (e ▸ rfl)
          simp only [if_neg hk]
          exact ih hold
      · rw [hwrite]
        exact if_pos rfl
    · rw [serve_of_ne hi] at h
      cases a with
      | read k' => exact ih h
      | write k' d =>
        by_cases hk : k' = p.1
        · have hmem : p.1 ∈ keys (serveAll w hash (fun _ => []) as i) := mem_keys.mpr ⟨p.2, h⟩
          have hhash := hash_of_mem_serveAll (fun _ _ hk => by cases hk) as i _ hmem
          exact absurd (hhash.symm.trans (congrArg hash hk.symm)) hi
        · simp only [if_neg hk]
          exact ih h

/-- A pair stays while its list has room for the keys in front of it and the other keys that are
touched. -/
private theorem mem_serveAll_of_ahead (h : ∀ i, Bounded w (A i)) (hw : 0 < w) {k : κ}
    (as : List (Access κ β)) {l₁ l₂ : List (κ × β)} {d : β}
    (hA : A (hash k) = l₁ ++ (k, d) :: l₂)
    (hcard : ((keys l₁).toFinset ∪ (touched w hash (hash k) A as).erase k).card < w) :
    k ∈ keys (serveAll w hash A as (hash k)) := by
  induction as generalizing A l₁ l₂ d with
  | nil =>
    change k ∈ keys (A (hash k))
    simp [hA]
  | cons a as ih =>
    rw [serveAll_cons]
    have hb : ∀ i, Bounded w (serve w hash A a i) := Bounded.serve h hw a
    have hbk : Bounded w (l₁ ++ (k, d) :: l₂) := hA ▸ h (hash k)
    rw [touched] at hcard
    by_cases hi : hash a.key = hash k ∧ a.Touches (A (hash a.key))
    · obtain ⟨hik, ht⟩ := hi
      rw [if_pos ⟨hik, ht⟩] at hcard
      have hself : serve w hash A a (hash k) = a.apply w (l₁ ++ (k, d) :: l₂) := by
        rw [← hik, serve_self, hik, hA]
      rw [hik, hA] at ht
      by_cases hk : a.key = k
      · obtain ⟨d', m, hm⟩ := apply_head (w := w) ht
        rw [hk] at hm
        have hfront : serve w hash A a (hash k) = [] ++ (k, d') :: m := hself.trans hm
        refine ih hb hfront (lt_of_le_of_lt (Finset.card_le_card ?_) hcard)
        rw [hk, Finset.erase_insert_eq_erase]
        simp
      · have hsub : insert a.key ((keys l₁).toFinset ∪
            (touched w hash (hash k) (serve w hash A a) as).erase k) ⊆
            (keys l₁).toFinset ∪
              (insert a.key (touched w hash (hash k) (serve w hash A a) as)).erase k := by
          rw [Finset.erase_insert_of_ne (Ne.symm (Ne.symm hk)), Finset.union_insert]
        have hroom : a.key ∈ keys (l₁ ++ (k, d) :: l₂) ∨ l₁.length + 1 < w := by
          by_cases hmem : a.key ∈ keys (l₁ ++ (k, d) :: l₂)
          · exact Or.inl hmem
          · right
            have hnot : a.key ∉ (keys l₁).toFinset := fun hm =>
              hmem (by simpa using Or.inl (List.mem_toFinset.mp hm))
            have hnodup : (keys l₁).Nodup := by
              have := hbk.nodup
              rw [keys_append, List.nodup_append] at this
              exact this.1
            have hle : (insert a.key (keys l₁).toFinset).card < w := by
              refine lt_of_le_of_lt (Finset.card_le_card ?_) hcard
              exact subset_trans (Finset.insert_subset_insert _ Finset.subset_union_left) hsub
            rw [Finset.card_insert_of_notMem hnot, List.toFinset_card_of_nodup hnodup,
              length_keys] at hle
            exact hle
        obtain ⟨m₁, m₂, hm, hkeys⟩ := apply_ahead hbk hk ht hroom
        refine ih hb (hself.trans hm) (lt_of_le_of_lt (Finset.card_le_card ?_) hcard)
        refine subset_trans (fun x hx => ?_) hsub
        rcases Finset.mem_union.mp hx with hx | hx
        · rcases hkeys x (List.mem_toFinset.mp hx) with rfl | hx
          · exact Finset.mem_insert_self _ _
          · exact Finset.mem_insert_of_mem
              (Finset.mem_union_left _ (List.mem_toFinset.mpr hx))
        · exact Finset.mem_insert_of_mem (Finset.mem_union_right _ hx)
    · rw [if_neg hi] at hcard
      have hsame : serve w hash A a (hash k) = l₁ ++ (k, d) :: l₂ := by
        by_cases hik : hash k = hash a.key
        · have ht : ¬a.Touches (A (hash a.key)) := fun ht => hi ⟨hik.symm, ht⟩
          rw [hik, serve_self, apply_of_not_touches ht, ← hik, hA]
        · rw [serve_of_ne hik, hA]
      exact ih hb hsame hcard

/-- **Residency.** A key that an access brought to the front is found as long as fewer than `w`
other keys of its list were touched since. -/
theorem resident (h : ∀ i, Bounded w (A i)) (hw : 0 < w) {a : Access κ β}
    (ht : a.Touches (A (hash a.key))) (as : List (Access κ β))
    (hcard : ((touched w hash (hash a.key) (serve w hash A a) as).erase a.key).card < w) :
    a.key ∈ keys (serveAll w hash A (a :: as) (hash a.key)) := by
  obtain ⟨d, m, hm⟩ := apply_head (w := w) ht
  have hfront : serve w hash A a (hash a.key) = [] ++ (a.key, d) :: m := (serve_self A a).trans hm
  refine mem_serveAll_of_ahead (Bounded.serve h hw a) hw as hfront ?_
  simpa using hcard

end Recency
