import Mathlib.Data.List.Chain
import Mathlib.Data.List.Nodup
import Mathlib.Logic.Function.Basic

/-!
# Doubly linked lists closed by a sentinel

A doubly linked list kept in two link functions is read as a ring through a sentinel `nil`: the
successor of `nil` is the head of the list and the predecessor of `nil` is its tail. With this
reading the insertion of a node, at either end or between two nodes, is one operation on four
links, and so is the removal of a node.

## Main definitions

* `LinkedRing.Links`: the two link functions.
* `LinkedRing.Linked`: the links run through a list, forwards and backwards, from `nil` to `nil`.
* `LinkedRing.Links.insert`, `LinkedRing.Links.unlink`: the updates of four links and of two.
* `LinkedRing.Walk`: following one link function from a node to `nil` meets a list.
* `LinkedRing.follow`: the first nodes that following one link function meets.

## Main results

* `LinkedRing.Linked.insert`, `LinkedRing.Linked.unlink`: the two updates keep the ring linked.
* `LinkedRing.Linked.walk_next`, `LinkedRing.Linked.walk_prev`: both directions read the list.
-/

namespace LinkedRing

variable {α : Type*}

/-- The successor and predecessor links of the nodes, the sentinel included. -/
@[ext] structure Links (α : Type*) where
  /-- The node after a node, `nil` after the last one. -/
  next : α → α
  /-- The node before a node, `nil` before the first one. -/
  prev : α → α

/-- Two consecutive nodes point at each other. -/
def Links.Adjacent (L : Links α) (a b : α) : Prop :=
  L.next a = b ∧ L.prev b = a

/-- The links `L` run through the list `l`, from the sentinel `nil` back to it. -/
structure Linked (L : Links α) (nil : α) (l : List α) : Prop where
  /-- No node occurs twice and the sentinel is not a node. -/
  nodup : (nil :: l).Nodup
  /-- Neighbours point at each other all the way round. -/
  chain : List.IsChain L.Adjacent (nil :: (l ++ [nil]))

/-- Following `next` from `a` until `nil` meets exactly the nodes of a list. -/
inductive Walk (next : α → α) (nil : α) : α → List α → Prop
  | done : Walk next nil nil []
  | step {a : α} {l : List α} (ha : a ≠ nil) (h : Walk next nil (next a) l) :
      Walk next nil a (a :: l)

/-- The node just before a position with the nodes `l₁` in front of it. -/
def before (nil : α) (l₁ : List α) : α := l₁.getLastD nil

/-- The node just after a position with the nodes `l₂` behind it. -/
def after (nil : α) (l₂ : List α) : α := l₂.headD nil

/-! ### Walks -/

theorem Walk.unique {next : α → α} {nil a : α} {l l' : List α} (h : Walk next nil a l)
    (h' : Walk next nil a l') : l = l' := by
  induction h generalizing l' with
  | done =>
    cases h' with
    | done => rfl
    | step ha _ => exact absurd rfl ha
  | step ha _ ih =>
    cases h' with
    | done => exact absurd rfl ha
    | step _ h' => rw [ih h']

theorem Walk.eq_nil_iff {next : α → α} {nil a : α} {l : List α} (h : Walk next nil a l) :
    l = [] ↔ a = nil := by
  cases h with
  | done => simp
  | step ha _ => simpa using ha

theorem Walk.head_eq {next : α → α} {nil a b : α} {l : List α} (h : Walk next nil a (b :: l)) :
    a = b := by
  cases h
  rfl

/-- A walk only reads the links of the nodes it meets. -/
theorem Walk.congr {next next' : α → α} {nil a : α} {l : List α} (h : Walk next nil a l)
    (hn : ∀ b ∈ l, next' b = next b) : Walk next' nil a l := by
  induction h with
  | done => exact .done
  | @step a l ha _ ih =>
    refine .step ha ?_
    rw [hn a List.mem_cons_self]
    exact ih fun b hb => hn b (List.mem_cons_of_mem _ hb)

/-- A walk that ends meets no node twice: the rest of the walk is determined by the node. -/
theorem Walk.nodup {next : α → α} {nil a : α} {l : List α} (h : Walk next nil a l) :
    l.Nodup := by
  have suffix : ∀ {b : α} {m : List α}, Walk next nil b m →
      ∀ c ∈ m, ∃ m', Walk next nil c m' ∧ m'.length ≤ m.length := by
    intro b m hw
    induction hw with
    | done => simp
    | @step a l ha h ih =>
      intro c hc
      rcases List.mem_cons.mp hc with rfl | hc
      · exact ⟨_, .step ha h, le_rfl⟩
      · obtain ⟨m', hm', hlen⟩ := ih c hc
        exact ⟨m', hm', hlen.trans (by simp)⟩
  induction h with
  | done => exact List.nodup_nil
  | @step a l ha h ih =>
    refine List.nodup_cons.mpr ⟨fun hmem => ?_, ih⟩
    obtain ⟨m', hm', hlen⟩ := suffix h a hmem
    have heq : m' = a :: l := hm'.unique (.step ha h)
    rw [heq, List.length_cons] at hlen
    omega

/-- The rest of a walk. -/
theorem Walk.of_append {next : α → α} {nil a b : α} {l₁ l₂ : List α}
    (h : Walk next nil a (l₁ ++ b :: l₂)) : Walk next nil b (b :: l₂) := by
  induction l₁ generalizing a with
  | nil => exact h.head_eq ▸ h
  | cons c l₁ ih =>
    cases h with
    | step _ h => exact ih h

/-- The first `n` nodes from `a` on, or fewer when `nil` comes before. -/
def follow [DecidableEq α] (next : α → α) (nil : α) : ℕ → α → List α
  | 0, _ => []
  | n + 1, a => if a = nil then [] else a :: follow next nil n (next a)

theorem Walk.follow_eq [DecidableEq α] {next : α → α} {nil a : α} {l : List α}
    (h : Walk next nil a l) (n : ℕ) : follow next nil n a = l.take n := by
  induction h generalizing n with
  | done => cases n with
    | zero => rfl
    | succ n => rw [follow, if_pos rfl, List.take_nil]
  | step ha _ ih => cases n with
    | zero => rfl
    | succ n => rw [follow, if_neg ha, ih, List.take_succ_cons]

private theorem walk_of_chain {next : α → α} {nil : α} : ∀ {a : α} {l : List α},
    List.IsChain (fun b c => next b = c) (a :: (l ++ [nil])) → nil ∉ l →
      Walk next nil (next a) l
  | a, [], h, _ => by
    have : next a = nil := by simpa using h
    rw [this]
    exact .done
  | a, b :: l, h, hnil => by
    rw [List.cons_append, List.isChain_cons_cons] at h
    rw [h.1]
    have hb : b ≠ nil := fun hb => hnil (hb ▸ List.mem_cons_self)
    exact .step hb (walk_of_chain h.2 fun hmem => hnil (List.mem_cons_of_mem _ hmem))

/-! ### Linked rings -/

namespace Linked

variable {L L' : Links α} {nil : α} {l l₁ l₂ : List α}

theorem nil_notMem (h : Linked L nil l) : nil ∉ l := (List.nodup_cons.mp h.nodup).1

theorem list_nodup (h : Linked L nil l) : l.Nodup := (List.nodup_cons.mp h.nodup).2

/-- Following `next` from the head reads the list. -/
theorem walk_next (h : Linked L nil l) : Walk L.next nil (L.next nil) l :=
  walk_of_chain (h.chain.imp fun _ _ hab => hab.1) h.nil_notMem

/-- Following `prev` from the tail reads the list backwards. -/
theorem walk_prev (h : Linked L nil l) : Walk L.prev nil (L.prev nil) l.reverse := by
  have hrev : List.IsChain (fun b c => L.prev b = c) (nil :: (l.reverse ++ [nil])) := by
    have := List.isChain_reverse.mpr (h.chain.imp fun _ _ hab => hab.2)
    simpa using this
  exact walk_of_chain hrev (by simpa using h.nil_notMem)

theorem next_nil (h : Linked L nil l) : L.next nil = after nil l := by
  cases l with
  | nil => simpa [after, Links.Adjacent] using (List.isChain_pair.mp h.chain).1
  | cons b l =>
    rw [after, List.headD_cons]
    exact (List.isChain_cons_cons.mp h.chain).1.1

theorem prev_nil (h : Linked L nil l) : L.prev nil = before nil l := by
  have hw := h.walk_prev
  rcases List.eq_nil_or_concat l with rfl | ⟨l, b, rfl⟩
  · simpa [before] using hw.eq_nil_iff.mp rfl
  · rw [List.concat_eq_append, List.reverse_append] at hw
    simpa [before] using hw.head_eq

private theorem chain_split (h : Linked L nil (l₁ ++ l₂)) :
    List.IsChain L.Adjacent (nil :: l₁) ∧ List.IsChain L.Adjacent (l₂ ++ [nil]) ∧
      L.Adjacent (before nil l₁) (after nil l₂) := by
  have hc : List.IsChain L.Adjacent ((nil :: l₁) ++ (l₂ ++ [nil])) := by simpa using h.chain
  rw [List.isChain_append] at hc
  refine ⟨hc.1, hc.2.1, hc.2.2 _ ?_ _ ?_⟩
  · rw [List.getLast?_cons, Option.mem_def, before, List.getLastD_eq_getLast?]
  · cases l₂ <;> simp [after]

/-- The links between the two sides of a position. -/
theorem adjacent_split (h : Linked L nil (l₁ ++ l₂)) :
    L.Adjacent (before nil l₁) (after nil l₂) := h.chain_split.2.2

/-- The neighbours of a node of the ring. -/
theorem adjacent_mid {x : α} (h : Linked L nil (l₁ ++ x :: l₂)) :
    L.prev x = before nil l₁ ∧ L.next x = after nil l₂ := by
  have h₁ := h.adjacent_split.2
  have hsnoc : Linked L nil ((l₁ ++ [x]) ++ l₂) := by simpa using h
  have h₂ := hsnoc.adjacent_split
  simp only [after, List.headD_cons] at h₁
  simp only [before, List.getLastD_concat] at h₂
  exact ⟨h₁, h₂.1⟩

/-- A ring only depends on the links of its nodes and of the sentinel. -/
theorem congr (h : Linked L nil l) (hn : ∀ a ∈ nil :: l, L'.next a = L.next a)
    (hp : ∀ a ∈ nil :: l, L'.prev a = L.prev a) : Linked L' nil l := by
  refine ⟨h.nodup, h.chain.imp_of_mem_imp ?_⟩
  intro a b ha hb hab
  have hmem : ∀ c, c ∈ nil :: (l ++ [nil]) → c ∈ nil :: l := by
    intro c hc
    simp only [List.mem_cons, List.mem_append, List.not_mem_nil, or_false] at hc ⊢
    tauto
  exact ⟨(hn a (hmem a ha)).trans hab.1, (hp b (hmem b hb)).trans hab.2⟩

end Linked

/-! ### Insertion and removal -/

section Sides

variable {L : Links α} {nil : α} {l₁ l₂ : List α}

theorem before_mem (nil : α) (l : List α) : before nil l ∈ nil :: l := by
  rcases List.eq_nil_or_concat l with rfl | ⟨l, b, rfl⟩ <;> simp [before]

theorem after_mem (nil : α) (l : List α) : after nil l ∈ nil :: l := by
  cases l <;> simp [after]

/-- A part of a ring survives a change of the links of nodes outside it. -/
private theorem chain_update {L : Links α} (L' : Links α) {l : List α} {a b : α}
    (h : List.IsChain L.Adjacent l) (hab : L.Adjacent a b) (hb : b ∉ l.tail)
    (hn : ∀ c ∈ l, L.next c ∈ l.tail → c ≠ a → L'.next c = L.next c)
    (hp : ∀ c ∈ l.tail, c ≠ b → L'.prev c = L.prev c) :
    List.IsChain L'.Adjacent l := by
  refine h.imp_of_mem_tail_imp fun c d hc hd hcd => ?_
  have hdb : d ≠ b := fun hdb => hb (hdb ▸ hd)
  have hca : c ≠ a := fun hca => hdb (hcd.1.symm.trans ((congrArg L.next hca).trans hab.1))
  exact ⟨(hn c hc (hcd.1.symm ▸ hd) hca).trans hcd.1, (hp d hd hdb).trans hcd.2⟩

private theorem nodup_sides (h : (nil :: (l₁ ++ l₂)).Nodup) :
    after nil l₂ ∉ l₁ ∧ after nil l₂ ∉ (l₂ ++ [nil]).tail := by
  rw [List.nodup_cons, List.nodup_append] at h
  cases l₂ with
  | nil => simpa [after] using h.1
  | cons b l₂ =>
    have hb : b ∉ l₂ := (List.nodup_cons.mp h.2.2.1).1
    have hb' : b ∉ l₁ := fun hm => h.2.2.2 b hm b List.mem_cons_self rfl
    have hne : b ≠ nil := fun e => h.1 (by simp [e])
    simp [after, hb, hb', hne]

end Sides

section Update

variable [DecidableEq α] {L : Links α} {nil : α} {l₁ l₂ : List α}

/-- Put the node `x` between the nodes `a` and `b`. -/
def Links.insert (L : Links α) (a x b : α) : Links α where
  next := Function.update (Function.update L.next a x) x b
  prev := Function.update (Function.update L.prev b x) x a

/-- Let the nodes `a` and `b` be neighbours. -/
def Links.unlink (L : Links α) (a b : α) : Links α where
  next := Function.update L.next a b
  prev := Function.update L.prev b a

/-- **Insertion.** Putting a fresh node between two neighbours inserts it into the list. -/
theorem Linked.insert {x : α} (h : Linked L nil (l₁ ++ l₂)) (hx : x ∉ nil :: (l₁ ++ l₂)) :
    Linked (L.insert (before nil l₁) x (after nil l₂)) nil (l₁ ++ x :: l₂) := by
  obtain ⟨h₁, h₂, hab⟩ := h.chain_split
  obtain ⟨hb₁, hb₂⟩ := nodup_sides h.nodup
  have hx₁ : ∀ c ∈ nil :: l₁, c ≠ x := by rintro c hc rfl; simp_all
  have hx₂ : ∀ c ∈ l₂ ++ [nil], c ≠ x := by rintro c hc rfl; simp_all
  have hax := hx₁ _ (before_mem nil l₁)
  have hbx := hx₂ _ (by simpa [or_comm] using after_mem nil l₂)
  have hnext : ∀ c, c ≠ x → c ≠ before nil l₁ →
      (L.insert (before nil l₁) x (after nil l₂)).next c = L.next c := fun c h₁ h₂ => by
    simp [Links.insert, h₁, h₂]
  have hprev : ∀ c, c ≠ x → c ≠ after nil l₂ →
      (L.insert (before nil l₁) x (after nil l₂)).prev c = L.prev c := fun c h₁ h₂ => by
    simp [Links.insert, h₁, h₂]
  refine ⟨?_, ?_⟩
  · have hperm : (nil :: (l₁ ++ x :: l₂)).Perm (x :: nil :: (l₁ ++ l₂)) :=
      (List.perm_middle.cons nil).trans (List.Perm.swap ..)
    exact hperm.nodup_iff.mpr (List.nodup_cons.mpr ⟨hx, h.nodup⟩)
  · have hleft := chain_update (L.insert (before nil l₁) x (after nil l₂)) h₁ hab
      (by simpa using hb₁) (fun c hc _ => hnext c (hx₁ c hc))
      (fun c hc => hprev c (hx₁ c (List.mem_of_mem_tail hc)))
    have hright := chain_update (L.insert (before nil l₁) x (after nil l₂)) h₂ hab hb₂
      (fun c hc _ => hnext c (hx₂ c hc))
      (fun c hc => hprev c (hx₂ c (List.mem_of_mem_tail hc)))
    have hxb : List.IsChain (L.insert (before nil l₁) x (after nil l₂)).Adjacent
        (x :: (l₂ ++ [nil])) := by
      refine List.isChain_cons.mpr ⟨fun y hy => ?_, hright⟩
      have hy' : y = after nil l₂ := by cases l₂ <;> simp_all [after]
      subst hy'
      exact ⟨by simp [Links.insert], by simp [Links.insert, hbx]⟩
    have hall := List.isChain_append.mpr ⟨hleft, hxb, ?_⟩
    · simpa using hall
    · intro a ha y hy
      have ha' : a = before nil l₁ := by
        rw [List.getLast?_cons, Option.mem_def] at ha
        rw [before, List.getLastD_eq_getLast?]
        exact (Option.some.inj ha).symm
      have hy' : y = x := by simpa using hy.symm
      subst ha' hy'
      exact ⟨by simp [Links.insert, hax], by simp [Links.insert]⟩

/-- **Removal.** Making the two neighbours of a node point at each other removes it. -/
theorem Linked.unlink {x : α} (h : Linked L nil (l₁ ++ x :: l₂)) :
    Linked (L.unlink (before nil l₁) (after nil l₂)) nil (l₁ ++ l₂) := by
  have hperm : (nil :: (l₁ ++ x :: l₂)).Perm (x :: nil :: (l₁ ++ l₂)) :=
    (List.perm_middle.cons nil).trans (List.Perm.swap ..)
  have hnd : (nil :: (l₁ ++ l₂)).Nodup := (List.nodup_cons.mp (hperm.nodup_iff.mp h.nodup)).2
  obtain ⟨h₁, -, hax⟩ := h.chain_split
  have hsnoc : Linked L nil ((l₁ ++ [x]) ++ l₂) := by simpa using h
  obtain ⟨-, h₂, hxb⟩ := hsnoc.chain_split
  simp only [after, List.headD_cons] at hax
  simp only [before, List.getLastD_concat] at hxb
  obtain ⟨hb₁, hb₂⟩ := nodup_sides hnd
  have hxl₁ : x ∉ l₁ := (nodup_sides h.nodup).1
  have hxl₂ : x ∉ l₂ ++ [nil] := by simpa [after] using (nodup_sides h.nodup).2
  refine ⟨hnd, ?_⟩
  have hnext : ∀ c, c ≠ before nil l₁ →
      (L.unlink (before nil l₁) (after nil l₂)).next c = L.next c := fun c hc => by
    simp [Links.unlink, hc]
  have hprev : ∀ c, c ≠ after nil l₂ →
      (L.unlink (before nil l₁) (after nil l₂)).prev c = L.prev c := fun c hc => by
    simp [Links.unlink, hc]
  have hleft := chain_update (L.unlink (before nil l₁) (after nil l₂)) h₁ hax
    (by simpa using hxl₁) (fun c _ _ => hnext c)
    (fun c hc _ => hprev c fun e => hb₁ (e ▸ by simpa using hc))
  have hright := chain_update (L.unlink (before nil l₁) (after nil l₂)) h₂ hxb hb₂
    (fun c _ hd _ => hnext c fun e => ?_) (fun c _ => hprev c)
  · have hall := List.isChain_append.mpr ⟨hleft, hright, ?_⟩
    · simpa using hall
    · intro a ha y hy
      have ha' : a = before nil l₁ := by
        rw [List.getLast?_cons, Option.mem_def] at ha
        rw [before, List.getLastD_eq_getLast?]
        exact (Option.some.inj ha).symm
      have hy' : y = after nil l₂ := by cases l₂ <;> simp_all [after]
      subst ha' hy'
      exact ⟨by simp [Links.unlink], by simp [Links.unlink]⟩
  · rw [e, hax.1] at hd
    exact hxl₂ (List.mem_of_mem_tail hd)

end Update

end LinkedRing
