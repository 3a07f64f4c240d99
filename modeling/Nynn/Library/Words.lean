import Mathlib.Data.List.DropRight

/-!
# The words of a text

The words of a text are its maximal non-empty parts without separators. Separators at either end of
the text do not matter. `Words.next` takes the first word off a text; it is what a tokenizer does.

## Main definitions

* `Words.words`: the words of a text.
* `Words.next`: the first word, and the text behind the separator that ends it.

## Main results

* `Words.words_dropWhile`, `Words.words_rdropWhile`: separators at the ends.
* `Words.words_of_next`, `Words.next_eq_none_iff`: a tokenizer reads the words.
* `Words.flatten_words`: the characters of the words.
-/

namespace Words

variable {α : Type*} (p : α → Bool)

/-- The words of a text with the separators `p`. -/
def words (s : List α) : List (List α) := (s.splitOnP p).filter fun w => !w.isEmpty

/-- The first word, and the text behind the separator that ends it. -/
def next (s : List α) : Option (List α × List α) :=
  match s.dropWhile p with
  | [] => none
  | c :: cs => some ((c :: cs).takeWhile (!p ·), ((c :: cs).dropWhile (!p ·)).tail)

variable {p} {s t w : List α} {c : α}

@[simp]
theorem words_nil : words p [] = [] := rfl

theorem words_append_cons (hc : p c) : words p (s ++ c :: t) = words p s ++ words p t := by
  rw [words, List.splitOnP_append_cons s t hc, List.filter_append, words, words]

theorem words_cons (hc : p c) : words p (c :: s) = words p s := by
  rw [← List.nil_append (c :: s), words_append_cons hc, words_nil, List.nil_append]

theorem words_concat (hc : p c) : words p (s ++ [c]) = words p s := by
  rw [words_append_cons hc, words_nil, List.append_nil]

/-- The parts of a text have its characters without the separators. -/
theorem flatten_splitOnP : (s.splitOnP p).flatten = s.filter (!p ·) := by
  induction s with
  | nil => rfl
  | cons a s ih =>
    rw [List.splitOnP_cons_eq_if_modifyHead]
    cases ha : p a with
    | true => simp [ha, ih]
    | false =>
      obtain ⟨part, parts, hparts⟩ := List.exists_cons_of_ne_nil (List.splitOnP_ne_nil p s)
      rw [hparts] at ih ⊢
      simp [ha, ← ih]

/-- The words of a text have its characters without the separators. -/
theorem flatten_words : (words p s).flatten = s.filter (!p ·) := by
  rw [words, List.flatten_filter_not_isEmpty, flatten_splitOnP]

/-- A text without separators is one word. -/
theorem words_of_forall (hw : ∀ a ∈ w, p a = false) (hne : w ≠ []) : words p w = [w] := by
  rw [words, List.splitOnP_eq_singleton hw]
  cases w with
  | nil => exact absurd rfl hne
  | cons a w => rfl

/-- Separators in front of a text do not matter. -/
theorem words_dropWhile : words p (s.dropWhile p) = words p s := by
  induction s with
  | nil => rfl
  | cons a s ih =>
    rw [List.dropWhile_cons]
    split
    next ha => rw [ih, words_cons ha]
    next => rfl

/-- Separators behind a text do not matter. -/
theorem words_rdropWhile : words p (s.rdropWhile p) = words p s := by
  induction s using List.reverseRecOn with
  | nil => rfl
  | append_singleton s a ih =>
    rw [List.rdropWhile_concat]
    split
    next ha => rw [ih, words_concat ha]
    next => rfl

/-- What is left after leading separators does not begin with a separator. -/
private theorem head_of_dropWhile (h : s.dropWhile p = c :: t) : p c = false := by
  have hne : s.dropWhile p ≠ [] := h ▸ List.cons_ne_nil c t
  have hhead := List.head_dropWhile_not p hne
  simpa [h] using hhead

/-- A text has no words if and only if it consists of separators. -/
theorem words_eq_nil_iff : words p s = [] ↔ s.dropWhile p = [] := by
  constructor
  · intro h
    rw [← words_dropWhile] at h
    cases hs : s.dropWhile p with
    | nil => rfl
    | cons c cs =>
      rw [hs, words, List.splitOnP_cons_eq_if_modifyHead, head_of_dropWhile hs] at h
      cases hsplit : cs.splitOnP p with
      | nil => exact absurd hsplit (List.splitOnP_ne_nil p cs)
      | cons w ws => simp [hsplit] at h
  · intro h
    rw [← words_dropWhile, h, words_nil]

/-- A tokenizer finds no word in a text without words. -/
theorem next_eq_none_iff : next p s = none ↔ words p s = [] := by
  rw [words_eq_nil_iff, next]
  cases s.dropWhile p <;> simp

/-- A tokenizer takes the first word off. -/
theorem words_of_next (h : next p s = some (w, t)) : words p s = w :: words p t := by
  rw [← words_dropWhile]
  cases hs : s.dropWhile p with
  | nil => simp [next, hs] at h
  | cons c cs =>
    simp only [next, hs, Option.some.injEq, Prod.mk.injEq] at h
    obtain ⟨rfl, rfl⟩ := h
    have hword : ∀ a ∈ (c :: cs).takeWhile (!p ·), p a = false := fun a ha => by
      simpa using List.mem_takeWhile_imp ha
    have hne : (c :: cs).takeWhile (!p ·) ≠ [] := by
      simp [head_of_dropWhile hs]
    cases hrest : (c :: cs).dropWhile (!p ·) with
    | nil =>
      have hall : (c :: cs).takeWhile (!p ·) = c :: cs := by
        conv_rhs => rw [← List.takeWhile_append_dropWhile (p := (!p ·)) (l := c :: cs), hrest,
          List.append_nil]
      rw [hall] at hword hne ⊢
      rw [words_of_forall hword hne, List.tail_nil, words_nil]
    | cons sep rest =>
      have hsep : p sep := by
        simpa using head_of_dropWhile hrest
      conv_lhs => rw [← List.takeWhile_append_dropWhile (p := (!p ·)) (l := c :: cs), hrest]
      rw [words_append_cons hsep, words_of_forall hword hne, List.tail_cons, List.singleton_append]

/-- A tokenizer gets on. -/
theorem length_of_next (h : next p s = some (w, t)) : t.length < s.length := by
  have hle := (List.dropWhile_suffix p (l := s)).length_le
  cases hs : s.dropWhile p with
  | nil => simp [next, hs] at h
  | cons c cs =>
    simp only [next, hs, Option.some.injEq, Prod.mk.injEq] at h
    obtain ⟨-, rfl⟩ := h
    have hword : (c :: cs).dropWhile (!p ·) = cs.dropWhile (!p ·) :=
      List.dropWhile_cons_of_pos (by simp [head_of_dropWhile hs])
    have hrest := (List.dropWhile_suffix (!p ·) (l := cs)).length_le
    rw [hs, List.length_cons] at hle
    rw [hword, List.length_tail]
    omega

end Words
