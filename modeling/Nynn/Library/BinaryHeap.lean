import Mathlib.Data.List.Sort
import Mathlib.Data.List.Perm.Basic

/-!
# Binary heaps in a list

A list is a heap for a comparison when no element compares before its parent, which is at half the
index. The front of a heap compares before no other element, so that the fronts of the heaps that
are left by popping come in order.

## Main definitions

* `BinaryHeap.IsHeap`: a list is a heap.
* `BinaryHeap.HeapFunctions`: functions that make a heap and pop its front, as the standard of C++
  describes `make_heap` and `pop_heap`.
* `BinaryHeap.HeapFunctions.fronts`: the elements in the order in which they are popped.

## Main results

* `BinaryHeap.IsHeap.front`: the front of a heap.
* `BinaryHeap.HeapFunctions.fronts_spec`: the elements are popped in order.
-/

namespace BinaryHeap

variable {α : Type*} {comp : α → α → Bool} {x : α} {v : List α}

/-- No element compares before its parent. -/
def IsHeap (comp : α → α → Bool) (v : List α) : Prop :=
  ∀ i, 0 < i → ∀ a ∈ v[(i - 1) / 2]?, ∀ b ∈ v[i]?, comp a b = false

/-- What compares before nothing is transitive and total, as for a strict weak order. -/
structure WeakOrder (comp : α → α → Bool) : Prop where
  trans : ∀ a b c, comp a b = false → comp b c = false → comp a c = false
  total : ∀ a b, comp a b = false ∨ comp b a = false

theorem WeakOrder.refl (hcomp : WeakOrder comp) (a : α) : comp a a = false :=
  (hcomp.total a a).elim id id

/-- **The front** of a heap compares before no element. -/
theorem IsHeap.front (hcomp : WeakOrder comp) (h : IsHeap comp (x :: v)) {y : α}
    (hy : y ∈ x :: v) : comp x y = false := by
  obtain ⟨i, hi⟩ := List.mem_iff_getElem?.mp hy
  induction i using Nat.strong_induction_on generalizing y with
  | _ i ih =>
    cases i with
    | zero =>
      obtain rfl : x = y := by simpa using hi
      exact hcomp.refl x
    | succ i =>
      -- the parent of `y`
      have hparent : i / 2 < (x :: v).length := by
        have hlt := (List.getElem?_eq_some_iff.mp hi).1
        omega
      have hp : (x :: v)[i / 2]? = some (x :: v)[i / 2] := List.getElem?_eq_getElem hparent
      have hxp := ih (i / 2) (by omega) (List.getElem_mem hparent) hp
      exact hcomp.trans _ _ _ hxp (h (i + 1) (Nat.succ_pos i) _ hp _ hi)

/-- A sorted list is a heap. -/
theorem isHeap_of_pairwise (h : v.Pairwise fun a b => comp a b = false) : IsHeap comp v := by
  intro i hi a ha b hb
  obtain ⟨hia, rfl⟩ := List.getElem?_eq_some_iff.mp ha
  obtain ⟨hib, rfl⟩ := List.getElem?_eq_some_iff.mp hb
  exact List.pairwise_iff_getElem.mp h _ _ hia hib (by omega)

/-- `make_heap` permutes a list into a heap. `pop_heap` moves the front of a heap to the end, and
what is before it is a heap. -/
structure HeapFunctions (comp : α → α → Bool) where
  makeHeap : List α → List α
  popHeap : List α → List α
  makeHeap_perm : ∀ v, (makeHeap v).Perm v
  isHeap_makeHeap : ∀ v, IsHeap comp (makeHeap v)
  popHeap_eq : ∀ x v, IsHeap comp (x :: v) → ∃ w, popHeap (x :: v) = w ++ [x] ∧ w.Perm v ∧
    IsHeap comp w

namespace HeapFunctions

/-- Functions that sort. -/
def sorting (hcomp : WeakOrder comp) : HeapFunctions comp where
  makeHeap v := v.insertionSort fun a b => comp a b = false
  popHeap v := (v.tail.insertionSort fun a b => comp a b = false) ++ v.head?.toList
  makeHeap_perm v := List.perm_insertionSort _ v
  isHeap_makeHeap v :=
    have : Std.Total fun a b => comp a b = false := ⟨hcomp.total⟩
    have : IsTrans α fun a b => comp a b = false := ⟨hcomp.trans⟩
    isHeap_of_pairwise (List.pairwise_insertionSort _ v)
  popHeap_eq _ v _ :=
    have : Std.Total fun a b => comp a b = false := ⟨hcomp.total⟩
    have : IsTrans α fun a b => comp a b = false := ⟨hcomp.trans⟩
    ⟨_, rfl, List.perm_insertionSort _ v, isHeap_of_pairwise (List.pairwise_insertionSort _ v)⟩

variable (f : HeapFunctions comp)

/-- The elements in the order in which they are popped. -/
def fronts : ℕ → List α → List α
  | 0, _ => []
  | _ + 1, [] => []
  | n + 1, x :: v => x :: fronts n (f.popHeap (x :: v)).dropLast

/-- **Popping** gives the elements of a heap in order. -/
theorem fronts_spec (hcomp : WeakOrder comp) (h : IsHeap comp v) :
    (f.fronts v.length v).Perm v ∧
      (f.fronts v.length v).Pairwise fun a b => comp a b = false := by
  generalize hn : v.length = n
  induction n generalizing v with
  | zero =>
    rw [List.eq_nil_of_length_eq_zero hn]
    exact ⟨.nil, .nil⟩
  | succ n ih =>
    obtain ⟨x, v, rfl⟩ := List.exists_cons_of_length_eq_add_one hn
    obtain ⟨w, hpop, hperm, hw⟩ := f.popHeap_eq x v h
    rw [List.length_cons, Nat.add_right_cancel_iff] at hn
    obtain ⟨hfronts, hsorted⟩ := ih hw (hperm.length_eq.trans hn)
    rw [fronts, hpop, List.dropLast_concat]
    refine ⟨(hfronts.trans hperm).cons x, List.pairwise_cons.mpr ⟨fun y hy => ?_, hsorted⟩⟩
    exact h.front hcomp (List.mem_cons_of_mem x ((hfronts.trans hperm).mem_iff.mp hy))

end HeapFunctions

end BinaryHeap
