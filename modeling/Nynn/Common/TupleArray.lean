import Nynn.Common.Text
import Nynn.Library.InputStream
import Nynn.Library.Words

/-!
# Tuples from lines

`gettuplearray` reads the lines of a stream and splits each into its words. An inner loop collects a
line from pieces of at most 63 characters and goes on as long as `failbit` is set. It means to clear
the bit before each piece, but `setstate` only adds bits: behind a piece that fills the buffer every
further `getline` fails, and the loop does not end.

Source: `gettuple` and `gettuplearray` in `nynn_mm_common.h`.

## Main definitions

* `Nynn.gettuplearray`: the loops over the stream.
* `Nynn.tuples`: the words of the lines that are not empty.

## Main results

* `Nynn.gettuplearray_tuples_iff`: the texts on which the loops end with the tuples.
-/

namespace Nynn

/-! ### The loops -/

/-- `while(inputstream>>word)`; `none` if it does not end in `fuel` turns. -/
def gettupleLoop : ℕ → Text → List Text → Option (List Text)
  | 0, _, _ => none
  | fuel + 1, s, t =>
    match Words.next isspace s with
    | none => some t
    | some (word, rest) => gettupleLoop fuel rest (t ++ [word])

/-- `gettuple` of a string stream with the contents `s`. -/
def gettuple (s : Text) : Option (List Text) := gettupleLoop (s.length + 1) s []

/-- The inner loop, which collects a line in the string stream `ss`. -/
def collectLine : ℕ → InputStream Char → Text → Option (InputStream Char × Text)
  | 0, _, _ => none
  | fuel + 1, s, ss =>
    let (s, buff) := (s.setstate s.eofbit false).getline '\n' 64
    let ss := ss ++ cstr buff
    if s.failbit && !s.eofbit then collectLine fuel s ss else some (s, ss)

/-- The outer loop; `none` if one of the loops does not end in `fuel` turns. -/
def gettuplearray : ℕ → InputStream Char → List (List Text) → Option (List (List Text))
  | 0, _, _ => none
  | fuel + 1, s, array =>
    if s.eofbit then some array
    else do
      let (s, ss) ← collectLine fuel s []
      if ss.length ≠ 0 then gettuplearray fuel s (array ++ [← gettuple ss])
      else gettuplearray fuel s array

/-- The words of each line that has a character. -/
def tuples (text : Text) : List (List Text) :=
  ((text.splitOn '\n').filter (· ≠ [])).map (Words.words isspace)

/-- Every line fits into the buffer, and there is no null character. -/
structure ShortLines (text : Text) : Prop where
  length_lt : ∀ line ∈ text.splitOn '\n', line.length < 64
  no_null : '\x00' ∉ text

variable {text line rest ss : Text} {array : List (List Text)} {fuel : ℕ}

/-! ### The inner loop -/

private theorem gettupleLoop_eq {s : Text} {t : List Text} (h : s.length < fuel) :
    gettupleLoop fuel s t = some (t ++ Words.words isspace s) := by
  induction fuel generalizing s t with
  | zero => exact absurd h (Nat.not_lt_zero _)
  | succ fuel ih =>
    rw [gettupleLoop]
    cases hnext : Words.next isspace s with
    | none => rw [Words.next_eq_none_iff.mp hnext, List.append_nil]
    | some r =>
      obtain ⟨word, rest⟩ := r
      have hlt := Words.length_of_next hnext
      rw [Words.words_of_next hnext, ← List.singleton_append, ← List.append_assoc]
      exact ih (by omega)

/-- `gettuple` reads the words. -/
theorem gettuple_eq (s : Text) : gettuple s = some (Words.words isspace s) :=
  gettupleLoop_eq (Nat.lt_succ_self _)

/-- Adding the bits without `failbit` changes nothing. -/
private theorem setstate_eofbit (s : InputStream Char) : s.setstate s.eofbit false = s := by
  rw [InputStream.setstate, Bool.or_self, Bool.or_false]

private theorem collectLine_line (h : '\n' ∉ line) (hlen : line.length < 64) :
    collectLine (fuel + 1) (.ofText (line ++ '\n' :: rest)) ss =
      some (.ofText rest, ss ++ cstr line) := by
  rw [collectLine, setstate_eofbit, InputStream.getline_line h hlen]
  rfl

private theorem collectLine_last (h : '\n' ∉ line) (hlen : line.length < 64) :
    collectLine (fuel + 1) (.ofText line) ss =
      some (⟨[], true, line.isEmpty⟩, ss ++ cstr line) := by
  rw [collectLine, setstate_eofbit, InputStream.getline_last h hlen]
  simp

/-- Where `failbit` is set the loop does not end. -/
private theorem collectLine_fail {s : InputStream Char} (hfail : s.failbit = true)
    (heof : s.eofbit = false) : collectLine fuel s ss = none := by
  induction fuel generalizing ss with
  | zero => rfl
  | succ fuel ih =>
    rw [collectLine, setstate_eofbit, InputStream.getline_fail hfail]
    simp only [hfail, heof, Bool.not_false, Bool.and_true, if_true]
    exact ih

private theorem collectLine_long (h : 64 ≤ (text.takeWhile (· != '\n')).length) :
    collectLine fuel (.ofText text) ss = none := by
  cases fuel with
  | zero => rfl
  | succ fuel =>
    rw [collectLine, setstate_eofbit, InputStream.getline_long h]
    exact collectLine_fail rfl rfl

/-! ### The outer loop -/

/-- The tuples of lines that fit into the buffer: a null character hides the rest of its line. -/
def readTuples (lines : List Text) : List (List Text) :=
  ((lines.map cstr).filter (· ≠ [])).map (Words.words isspace)

private theorem readTuples_cons (line : Text) (lines : List Text) :
    readTuples (line :: lines) = readTuples [line] ++ readTuples lines := by
  rw [readTuples, readTuples, readTuples, ← List.map_append, ← List.filter_append,
    ← List.map_append, List.singleton_append]

/-- A turn behind the inner loop. -/
private theorem gettuplearray_succ {s s' : InputStream Char} (heof : s.eofbit = false)
    (h : collectLine fuel s [] = some (s', cstr line)) :
    gettuplearray (fuel + 1) s array = gettuplearray fuel s' (array ++ readTuples [line]) := by
  rw [gettuplearray, heof, if_neg Bool.false_ne_true, h]
  dsimp only [bind, Option.bind]
  by_cases hline : cstr line = []
  · have hnone : readTuples [line] = [] := by
      simp [readTuples, hline]
    rw [hnone, hline, List.append_nil]
    rfl
  · have hone : readTuples [line] = [Words.words isspace (cstr line)] := by
      simp [readTuples, hline]
    rw [hone, gettuple_eq, if_pos (mt List.length_eq_zero_iff.mp hline)]

/-- The loops end where every line fits. -/
private theorem gettuplearray_short (h : ∀ line ∈ text.splitOn '\n', line.length < 64)
    (array : List (List Text)) :
    ∃ fuel, gettuplearray (fuel + 1) (.ofText text) array =
      some (array ++ readTuples (text.splitOn '\n')) := by
  induction text using InputStream.lines_induction '\n' generalizing array with
  | last line hline =>
    rw [InputStream.splitOn_last hline] at h ⊢
    refine ⟨1, ?_⟩
    rw [gettuplearray_succ rfl (collectLine_last hline (h line List.mem_cons_self))]
    rfl
  | line line rest hline ih =>
    rw [InputStream.splitOn_line hline] at h ⊢
    rw [List.forall_mem_cons] at h
    obtain ⟨fuel, hfuel⟩ := ih h.2 (array ++ readTuples [line])
    refine ⟨fuel + 1, ?_⟩
    rw [gettuplearray_succ rfl (collectLine_line hline h.1), hfuel, List.append_assoc,
      ← readTuples_cons]

/-- A turn ends only if the first line fits. -/
private theorem fuel_of_gettuplearray {r : List (List Text)}
    (h : gettuplearray fuel (.ofText text) array = some r) :
    ∃ n, (text.takeWhile (· != '\n')).length < 64 ∧ fuel = n + 1 + 1 := by
  cases fuel with
  | zero => cases h
  | succ fuel =>
    have hinner : collectLine fuel (.ofText text) [] ≠ none := by
      intro hnone
      rw [gettuplearray, InputStream.ofText, if_neg Bool.false_ne_true] at h
      rw [InputStream.ofText] at hnone
      rw [hnone] at h
      cases h
    cases fuel with
    | zero => exact absurd rfl hinner
    | succ fuel =>
      refine ⟨fuel, ?_, rfl⟩
      by_contra hlong
      exact hinner (collectLine_long (Nat.not_lt.mp hlong))

/-- Where the loops end every line fits. -/
private theorem gettuplearray_eq_some {r : List (List Text)}
    (h : gettuplearray fuel (.ofText text) array = some r) :
    (∀ line ∈ text.splitOn '\n', line.length < 64) ∧
      r = array ++ readTuples (text.splitOn '\n') := by
  induction text using InputStream.lines_induction '\n' generalizing fuel array with
  | last line hline =>
    rw [InputStream.splitOn_last hline]
    obtain ⟨fuel, hlen, rfl⟩ := fuel_of_gettuplearray h
    rw [InputStream.takeWhile_last hline] at hlen
    rw [gettuplearray_succ rfl (collectLine_last hline hlen)] at h
    exact ⟨List.forall_mem_singleton.mpr hlen, (Option.some.inj h).symm⟩
  | line line rest hline ih =>
    rw [InputStream.splitOn_line hline]
    obtain ⟨fuel, hlen, rfl⟩ := fuel_of_gettuplearray h
    rw [InputStream.takeWhile_line hline] at hlen
    rw [gettuplearray_succ rfl (collectLine_line hline hlen)] at h
    obtain ⟨hshort, rfl⟩ := ih h
    exact ⟨List.forall_mem_cons.mpr ⟨hlen, hshort⟩, by
      rw [List.append_assoc, ← readTuples_cons]⟩

/-! ### Null characters -/

private theorem readTuples_eq_iff :
    readTuples (text.splitOn '\n') = tuples text ↔ '\x00' ∉ text := by
  constructor
  · intro heq hnull
    obtain ⟨line, hline, hmem⟩ : ∃ line ∈ text.splitOn '\n', '\x00' ∈ line := by
      rw [← List.mem_flatten, List.splitOn, Words.flatten_splitOnP, List.mem_filter]
      exact ⟨hnull, by decide⟩
    have htuple : Words.words isspace line ∈ tuples text :=
      List.mem_map_of_mem (List.mem_filter.mpr ⟨hline, by simpa using List.ne_nil_of_mem hmem⟩)
    rw [← heq, readTuples, List.mem_map] at htuple
    obtain ⟨read, hread, hwords⟩ := htuple
    obtain ⟨line', -, rfl⟩ := List.mem_map.mp (List.mem_of_mem_filter hread)
    -- the words that were read have no null character, and those of the line have
    have hin : '\x00' ∈ (Words.words isspace line).flatten := by
      rw [Words.flatten_words, List.mem_filter]
      exact ⟨hmem, by decide⟩
    rw [← hwords, Words.flatten_words] at hin
    have hnot := List.mem_takeWhile_imp (List.mem_of_mem_filter hin)
    exact absurd hnot (by decide)
  · intro hnull
    have hlines : (text.splitOn '\n').map cstr = text.splitOn '\n' := by
      refine (List.map_congr_left fun line hline => ?_).trans (List.map_id _)
      have hline : '\x00' ∉ line := fun hmem => by
        have hin := List.mem_flatten.mpr ⟨line, hline, hmem⟩
        rw [List.splitOn, Words.flatten_splitOnP] at hin
        exact hnull (List.mem_of_mem_filter hin)
      exact InputStream.takeWhile_last hline
    rw [readTuples, hlines, tuples]

/-- **Tuples from lines.** The loops end with the words of the lines that are not empty if and only
if every line fits into the buffer and there is no null character. -/
theorem gettuplearray_tuples_iff (text : Text) (array : List (List Text)) :
    (∃ fuel, gettuplearray fuel (.ofText text) array = some (array ++ tuples text)) ↔
      ShortLines text := by
  constructor
  · rintro ⟨fuel, hfuel⟩
    obtain ⟨hshort, heq⟩ := gettuplearray_eq_some hfuel
    exact ⟨hshort, readTuples_eq_iff.mp (List.append_cancel_left heq).symm⟩
  · rintro ⟨hshort, hnull⟩
    obtain ⟨fuel, hfuel⟩ := gettuplearray_short hshort array
    exact ⟨fuel + 1, by rw [hfuel, readTuples_eq_iff.mpr hnull]⟩

/-- The loops do not end on a line of 64 characters. -/
theorem gettuplearray_tuples_false_of_long :
    ¬∃ fuel r, gettuplearray fuel (.ofText (List.replicate 64 'a')) [] = some r := by
  rintro ⟨fuel, r, h⟩
  obtain ⟨-, hlen, -⟩ := fuel_of_gettuplearray h
  exact absurd hlen (by decide)

/-- A blank line is a tuple without words, and an empty line is no tuple. -/
example : gettuplearray 6 (.ofText "a  b\n \n\nc".toList) [] =
    some [["a".toList, "b".toList], [], ["c".toList]] := by decide +kernel

end Nynn
