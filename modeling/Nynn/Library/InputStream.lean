import Mathlib.Data.List.TakeWhile
import Mathlib.Data.Nat.Notation

/-!
# Input streams

A stream of characters has a state of bits, and `getline` reads a line into a buffer of a given
size. It sets the bits as `istream` does: the end of the text sets `eofbit`, a line that does not
fit into the buffer or no character at all sets `failbit`, and a stream that is not good stays as it
is.

## Main definitions

* `InputStream.getline`: what is read, and the stream behind it.

## Main results

* `InputStream.lines_induction`: induction along the lines of a text.
* `InputStream.getline_line`, `InputStream.getline_last`, `InputStream.getline_long`: the calls on a
  good stream.
-/

/-- An `istream`: the characters that are not read, and the bits of its state. -/
structure InputStream (α : Type*) where
  rest : List α
  eofbit : Bool
  failbit : Bool

namespace InputStream

variable {α : Type*}

/-- A stream at the beginning of a text. -/
def ofText (text : List α) : InputStream α := ⟨text, false, false⟩

/-- `setstate`, which only adds bits. -/
def setstate (s : InputStream α) (eofbit failbit : Bool) : InputStream α :=
  ⟨s.rest, s.eofbit || eofbit, s.failbit || failbit⟩

variable [DecidableEq α]

/-- `getline` into a buffer of `n` characters: the stream afterwards, and the characters in front of
the null character that ends the buffer. -/
def getline (delim : α) (n : ℕ) (s : InputStream α) : InputStream α × List α :=
  if s.eofbit || s.failbit then (s.setstate false true, [])
  else
    let line := s.rest.takeWhile (· != delim)
    if line.length < n then
      match s.rest.drop line.length with
      | [] => (⟨[], true, line.isEmpty⟩, line)
      | _ :: rest => (⟨rest, false, false⟩, line)
    else (⟨s.rest.drop (n - 1), false, true⟩, line.take (n - 1))

variable {delim : α} {n : ℕ} {line rest : List α}

/-! ### Lines -/

private theorem forall_ne (h : delim ∉ line) : ∀ c ∈ line, (c == delim) = false := fun c hc => by
  have hne : c ≠ delim := fun e => h (e ▸ hc)
  simpa using hne

theorem splitOn_last (h : delim ∉ line) : line.splitOn delim = [line] :=
  List.splitOnP_eq_singleton (forall_ne h)

theorem splitOn_line (h : delim ∉ line) :
    (line ++ delim :: rest).splitOn delim = line :: rest.splitOn delim := by
  have hself : (delim == delim) = true := beq_self_eq_true delim
  rw [List.splitOn, List.splitOnP_append_cons (p := (· == delim)) line rest hself,
    List.splitOnP_eq_singleton (forall_ne h), List.singleton_append, List.splitOn]

theorem takeWhile_last (h : delim ∉ line) : line.takeWhile (· != delim) = line :=
  List.takeWhile_eq_self_iff.mpr fun c hc => by rw [bne, forall_ne h c hc, Bool.not_false]

theorem takeWhile_line (h : delim ∉ line) :
    (line ++ delim :: rest).takeWhile (· != delim) = line := by
  rw [List.takeWhile_append, takeWhile_last h, if_pos rfl, List.takeWhile_cons_of_neg (by simp),
    List.append_nil]

/-- Induction along the lines of a text. -/
@[elab_as_elim]
theorem lines_induction (delim : α) {motive : List α → Prop}
    (last : ∀ line, delim ∉ line → motive line)
    (line : ∀ line rest, delim ∉ line → motive rest → motive (line ++ delim :: rest))
    (text : List α) : motive text := by
  by_cases hmem : delim ∈ text
  · obtain ⟨front, rest, htext, hfront⟩ := List.eq_append_cons_of_mem hmem
    rw [htext]
    exact line front rest hfront (lines_induction delim last line rest)
  · exact last text hmem
termination_by text.length
decreasing_by
  rw [htext, List.length_append, List.length_cons]
  omega

/-! ### Reading a line -/

/-- A line that fits into the buffer. -/
theorem getline_line (h : delim ∉ line) (hlen : line.length < n) :
    (ofText (line ++ delim :: rest)).getline delim n = (ofText rest, line) := by
  rw [getline, ofText, Bool.or_false, if_neg Bool.false_ne_true]
  simp only [takeWhile_line h, if_pos hlen, List.drop_left]
  rfl

/-- The end of the text. -/
theorem getline_last (h : delim ∉ line) (hlen : line.length < n) :
    (ofText line).getline delim n = (⟨[], true, line.isEmpty⟩, line) := by
  rw [getline, ofText, Bool.or_false, if_neg Bool.false_ne_true]
  simp only [takeWhile_last h, if_pos hlen, List.drop_length]

/-- A line that does not fit into the buffer. -/
theorem getline_long (hlen : n ≤ (rest.takeWhile (· != delim)).length) :
    (ofText rest).getline delim n =
      (⟨rest.drop (n - 1), false, true⟩, (rest.takeWhile (· != delim)).take (n - 1)) := by
  rw [getline, ofText, Bool.or_false, if_neg Bool.false_ne_true]
  exact if_neg (Nat.not_lt.mpr hlen)

/-- A stream that is not good. -/
theorem getline_fail {s : InputStream α} (h : s.failbit = true) :
    s.getline delim n = (s, []) := by
  rw [getline, h, Bool.or_true, if_pos rfl, setstate, h, Bool.or_false, Bool.true_or, ← h]

end InputStream
