import Nynn.Library.Program
import Mathlib.Data.List.FinRange
import Mathlib.Data.List.Nodup
import Mathlib.Logic.Function.Basic

/-!
# Records on a wire

A record is written as a list of fields, each with its number and the tag of its type, and a stop. A
reader of records knows some fields. It takes the fields as they come: one that it knows, with the
tag that it expects, is read, and any other one is skipped. So readers and writers with different
fields understand each other.

## Main definitions

* `Wire.Reads`: a program reads a value from what was written for it.
* `Wire.FieldCodec`: what is written and read for fields and values.
* `Wire.Spec`, `Wire.Record`: the fields that a reader knows, and those that it has found.
* `Wire.Entry`: a field that was written.

## Main results

* `Wire.FieldCodec.reads_entries`: exactly what a reader finds in any fields.
* `Wire.FieldCodec.reads_record`: what a reader sees of a record that was written with other fields.
* `Wire.Record.seenBy_self`: a reader with the fields of the writer sees them all.
-/

namespace Wire

open Program

variable {B ε α β : Type}

/-! ### Reading what was written -/

/-- The program reads `a` from `bs`, and leaves what comes after it. -/
def Reads (p : Prog (List B) ε α) (bs : List B) (a : α) : Prop :=
  ∀ rest, p.run (bs ++ rest) = (.ok a, rest)

namespace Reads

variable {p : Prog (List B) ε α} {bs cs : List B} {a : α} {b : β}

theorem pure (a : α) : Reads (Pure.pure a : Prog (List B) ε α) [] a := fun _ => rfl

theorem bind {f : α → Prog (List B) ε β} (h : Reads p bs a) (h' : Reads (f a) cs b) :
    Reads (p >>= f) (bs ++ cs) b := fun rest => by
  rw [List.append_assoc, Prog.run_bind_of_ok (h (cs ++ rest)), h' rest]

/-- A program that only computes after another one has read. -/
theorem map {f : α → Prog (List B) ε β} (h : Reads p bs a) (hf : Reads (f a) [] b) :
    Reads (p >>= f) bs b := by
  have hbind := h.bind hf
  rwa [List.append_nil] at hbind

/-- A program before which another one only computes. -/
theorem after {f : α → Prog (List B) ε β} (h : Reads p [] a) (hf : Reads (f a) bs b) :
    Reads (p >>= f) bs b := h.bind hf

end Reads

/-- Read `n` values, one after the other. -/
def readMany (p : Prog (List B) ε α) : ℕ → Prog (List B) ε (List α)
  | 0 => pure []
  | n + 1 => do
    let a ← p
    let as ← readMany p n
    pure (a :: as)

theorem Reads.many {p : Prog (List B) ε α} {write : α → List B} {as : List α}
    (h : ∀ a ∈ as, Reads p (write a) a) :
    Reads (readMany p as.length) (as.flatMap write) as := by
  induction as with
  | nil => exact .pure []
  | cons a as ih =>
    rw [List.forall_mem_cons] at h
    exact h.1.bind ((ih h.2).map (.pure (a :: as)))

/-! ### Fields -/

/-- What is written and read for the fields of records. `U` are the types of the values, `G` their
tags on the wire and `I` the numbers of the fields. -/
structure FieldCodec (B ε U G I : Type) (Value : U → Type) where
  tag : U → G
  /-- In front of a field with this name, this tag and this number. -/
  writeBegin : String → G → I → List B
  writeEnd : List B
  writeStop : List B
  write : (u : U) → Value u → List B
  /-- The tag and the number of the next field, or `none` at the stop. -/
  readBegin : Prog (List B) ε (Option (G × I))
  readEnd : Prog (List B) ε Unit
  read : (u : U) → Prog (List B) ε (Value u)
  skip : G → Prog (List B) ε Unit
  /-- The failure of a reader that finds no stop. -/
  unending : ε
  /-- The value can be written. -/
  Fits : (u : U) → Value u → Prop
  writeBegin_ne_nil : ∀ name g i, writeBegin name g i ≠ []
  reads_begin : ∀ name g i, Reads readBegin (writeBegin name g i) (some (g, i))
  reads_stop : Reads readBegin writeStop none
  reads_end : Reads readEnd writeEnd ()
  reads_value : ∀ u x, Fits u x → Reads (read u) (write u x) x
  skips_value : ∀ u x, Fits u x → Reads (skip (tag u)) (write u x) ()

/-- A field that a reader knows. -/
structure Field (U I : Type) where
  name : String
  number : I
  type : U

/-- The fields that a reader knows. -/
abbrev Spec (U I : Type) := List (Field U I)

variable {U G I : Type} {Value : U → Type}

/-- The value of every field. -/
abbrev Record (Value : U → Type) (spec : Spec U I) := (i : Fin spec.length) → Value (spec.get i).type

/-- The fields that a reader has found. -/
abbrev Found (Value : U → Type) (spec : Spec U I) :=
  (i : Fin spec.length) → Option (Value (spec.get i).type)

/-- A field that was written. -/
structure Entry (I : Type) (Value : U → Type) where
  name : String
  number : I
  type : U
  value : Value type

def Spec.find [DecidableEq I] (spec : Spec U I) (number : I) : Option (Fin spec.length) :=
  spec.findFinIdx? (·.number = number)

section Find

variable [DecidableEq I] {spec : Spec U I} {number : I} {i j : Fin spec.length}

omit [DecidableEq I] in
theorem Spec.eq_of_number (hspec : (spec.map (·.number)).Nodup)
    (h : (spec.get i).number = (spec.get j).number) : i = j := by
  have hget : (spec.map (·.number))[i] = (spec.map (·.number))[j] := by simpa using h
  exact Fin.ext ((List.Nodup.getElem_inj_iff hspec).mp hget)

theorem Spec.number_of_find (h : spec.find number = some i) : (spec.get i).number = number := by
  rw [find, List.findFinIdx?_eq_some_iff] at h
  simpa using h.1

theorem Spec.find_get (hspec : (spec.map (·.number)).Nodup) (i : Fin spec.length) :
    spec.find (spec.get i).number = some i := by
  rw [find, List.findFinIdx?_eq_some_iff]
  refine ⟨by simp, fun j hj => ?_⟩
  have hne : (spec.get j).number ≠ (spec.get i).number :=
    fun heq => hj.ne (eq_of_number hspec heq)
  simpa using hne

theorem Spec.number_ne_of_find (h : spec.find number = none) (i : Fin spec.length) :
    (spec.get i).number ≠ number := by
  rw [find, List.findFinIdx?_eq_none_iff] at h
  simpa using h (spec.get i) (spec.get_mem i)

end Find

/-- The fields of a record. -/
def Record.entry {spec : Spec U I} (r : Record Value spec) (i : Fin spec.length) : Entry I Value :=
  ⟨(spec.get i).name, (spec.get i).number, (spec.get i).type, r i⟩

section Seen

variable [DecidableEq I] [DecidableEq U] {spec : Spec U I}

/-- What a reader has found after a field. -/
def Entry.assign (found : Found Value spec) (e : Entry I Value) : Found Value spec :=
  match spec.find e.number with
  | some i =>
    if h : e.type = (spec.get i).type then Function.update found i (some (h ▸ e.value)) else found
  | none => found

/-- What a field is to the `i`-th field of a reader. -/
def Entry.valueFor (i : Fin spec.length) (e : Entry I Value) : Option (Value (spec.get i).type) :=
  if h : e.number = (spec.get i).number ∧ e.type = (spec.get i).type then some (h.2 ▸ e.value)
  else none

/-- The last value under each number that a reader knows, with the type that it expects. -/
def lastOf (spec : Spec U I) (es : List (Entry I Value)) : Found Value spec := fun i =>
  es.reverse.findSome? (Entry.valueFor i)

/-- What a reader with the fields `spec'` sees of a record. -/
def Record.seenBy (r : Record Value spec) (spec' : Spec U I) : Found Value spec' := fun i =>
  match spec.find (spec'.get i).number with
  | some j => if h : (spec.get j).type = (spec'.get i).type then some (h ▸ r j) else none
  | none => none

theorem Entry.assign_apply (hspec : (spec.map (·.number)).Nodup) (found : Found Value spec)
    (e : Entry I Value) (i : Fin spec.length) :
    e.assign found i = (e.valueFor i).or (found i) := by
  rw [assign, valueFor]
  cases hfind : spec.find e.number with
  | none =>
    have hne : e.number ≠ (spec.get i).number := fun h => Spec.number_ne_of_find hfind i h.symm
    rw [dif_neg fun h => hne h.1, Option.none_or]
  | some j =>
    have hj := Spec.number_of_find hfind
    by_cases hij : i = j
    · obtain rfl := hij
      by_cases htype : e.type = (spec.get i).type
      · simp only [dif_pos htype, dif_pos (And.intro hj.symm htype), Function.update_self,
          Option.some_or]
      · simp only [dif_neg htype, dif_neg fun h : _ ∧ e.type = _ => htype h.2, Option.none_or]
    · have hne : e.number ≠ (spec.get i).number := fun h =>
        hij (Spec.eq_of_number hspec (h.symm.trans hj.symm))
      rw [dif_neg fun h => hne h.1, Option.none_or]
      dsimp only
      split_ifs with htype
      · rw [Function.update_of_ne hij]
      · rfl

theorem foldl_assign (hspec : (spec.map (·.number)).Nodup) (found : Found Value spec)
    (es : List (Entry I Value)) (i : Fin spec.length) :
    es.foldl Entry.assign found i = (lastOf spec es i).or (found i) := by
  induction es generalizing found with
  | nil => rfl
  | cons e es ih =>
    have hlast : lastOf spec (e :: es) i = (lastOf spec es i).or (e.valueFor i) := by
      rw [lastOf, List.reverse_cons, List.findSome?_append, List.findSome?_singleton, lastOf]
    rw [List.foldl_cons, ih, Entry.assign_apply hspec, hlast, Option.or_assoc]

/-- Where only one element of a list gives anything, that is what is found. -/
private theorem findSome?_eq_of_unique {f : α → Option β} {l : List α} {a : α} (ha : a ∈ l)
    (h : ∀ b ∈ l, b ≠ a → f b = none) : l.findSome? f = f a := by
  induction l with
  | nil => cases ha
  | cons b l ih =>
    rw [List.findSome?_cons]
    cases hb : f b with
    | some x =>
      have hba : b = a := by
        by_contra hne
        rw [h b List.mem_cons_self hne] at hb
        cases hb
      rw [← hba, hb]
    | none =>
      rcases List.mem_cons.mp ha with rfl | ha
      · cases hl : l.findSome? f with
        | none => exact hb.symm
        | some x =>
          obtain ⟨c, hc, hcx⟩ := List.exists_of_findSome?_eq_some hl
          by_cases hca : c = a
          · rw [hca, hb] at hcx
            cases hcx
          · rw [h c (List.mem_cons_of_mem _ hc) hca] at hcx
            cases hcx
      · exact ih ha fun c hc => h c (List.mem_cons_of_mem _ hc)

/-- The last field under a number is the only one in a record. -/
theorem lastOf_record (hspec : (spec.map (·.number)).Nodup) (r : Record Value spec)
    (spec' : Spec U I) : lastOf spec' ((List.finRange spec.length).map r.entry) =
      r.seenBy spec' := by
  funext i
  rw [lastOf, ← List.map_reverse, List.findSome?_map, Record.seenBy]
  cases hfind : spec.find (spec'.get i).number with
  | none =>
    refine List.findSome?_eq_none_iff.mpr fun j _ => dif_neg fun h => ?_
    exact Spec.number_ne_of_find hfind j h.1
  | some j =>
    have hj := Spec.number_of_find hfind
    have hunique : ∀ k ∈ (List.finRange spec.length).reverse, k ≠ j →
        (Entry.valueFor i ∘ r.entry) k = none := fun k _ hkj =>
      dif_neg fun h => hkj (Spec.eq_of_number hspec (h.1.trans hj.symm))
    rw [findSome?_eq_of_unique (by simp) hunique, Function.comp_apply, Entry.valueFor]
    dsimp only
    by_cases htype : (spec.get j).type = (spec'.get i).type
    · rw [dif_pos ⟨hj, htype⟩, dif_pos htype]
      rfl
    · rw [dif_neg fun h => htype h.2, dif_neg htype]

/-- A reader with the fields of the writer sees them all. -/
theorem Record.seenBy_self (hspec : (spec.map (·.number)).Nodup) (r : Record Value spec) :
    r.seenBy spec = fun i => some (r i) := by
  funext i
  rw [seenBy, Spec.find_get hspec]
  exact dif_pos rfl

end Seen

/-! ### Records -/

namespace FieldCodec

variable [DecidableEq I] [DecidableEq U] [DecidableEq G] (C : FieldCodec B ε U G I Value)
  (spec : Spec U I)

def writeEntry (e : Entry I Value) : List B :=
  C.writeBegin e.name (C.tag e.type) e.number ++ C.write e.type e.value ++ C.writeEnd

def writeEntries (es : List (Entry I Value)) : List B := es.flatMap C.writeEntry ++ C.writeStop

def writeRecord {spec : Spec U I} (r : Record Value spec) : List B :=
  C.writeEntries ((List.finRange spec.length).map r.entry)

/-- A field that the reader knows, with the tag that it expects, is read; another one is skipped. -/
def readField (found : Found Value spec) (g : G) (number : I) :
    Prog (List B) ε (Found Value spec) :=
  match spec.find number with
  | some i =>
    if g = C.tag (spec.get i).type then do
      let x ← C.read (spec.get i).type
      pure (Function.update found i (some x))
    else do
      C.skip g
      pure found
  | none => do
    C.skip g
    pure found

def readFields : ℕ → Found Value spec → Prog (List B) ε (Found Value spec)
  | 0, _ => Prog.fail C.unending
  | n + 1, found => do
    match ← C.readBegin with
    | none => pure found
    | some (g, number) =>
      let found ← C.readField spec found g number
      C.readEnd
      readFields n found

/-- Read fields up to the stop. No loop over them is longer than what is there to read. -/
def readRecord : Prog (List B) ε (Found Value spec) := do
  let bs ← Prog.get
  C.readFields spec (bs.length + 1) fun _ => none

/-- The value can be written, and a reader that expects its tag under its number expects its type. -/
def Readable (e : Entry I Value) : Prop :=
  C.Fits e.type e.value ∧ ∀ i, spec.find e.number = some i →
    C.tag e.type = C.tag (spec.get i).type → e.type = (spec.get i).type

variable {C} {spec} {e : Entry I Value} {es : List (Entry I Value)} {found : Found Value spec}

theorem reads_field (he : C.Readable spec e) :
    Reads (C.readField spec found (C.tag e.type) e.number) (C.write e.type e.value)
      (e.assign found) := by
  obtain ⟨hfits, htype⟩ := he
  have hskip : Reads (C.skip (C.tag e.type) >>= fun _ => pure found)
      (C.write e.type e.value) found :=
    (C.skips_value _ _ hfits).map (.pure found)
  rw [readField, Entry.assign]
  cases hi : spec.find e.number with
  | none => exact hskip
  | some i =>
    dsimp only
    by_cases htag : C.tag e.type = C.tag (spec.get i).type
    · obtain ⟨name, number, type, value⟩ := e
      obtain rfl := htype i hi htag
      rw [if_pos htag, dif_pos rfl]
      exact (C.reads_value _ _ hfits).map (.pure _)
    · rw [if_neg htag, dif_neg fun h => htag (congrArg C.tag h)]
      exact hskip

theorem reads_fields (hes : ∀ e ∈ es, C.Readable spec e) {n : ℕ} (hn : es.length < n) :
    Reads (C.readFields spec n found) (C.writeEntries es) (es.foldl Entry.assign found) := by
  induction es generalizing n found with
  | nil =>
    obtain ⟨n, rfl⟩ := Nat.exists_eq_add_of_lt hn
    rw [writeEntries, List.flatMap_nil, List.nil_append, List.length_nil, Nat.zero_add]
    exact C.reads_stop.map (.pure found)
  | cons e es ih =>
    obtain ⟨n, rfl⟩ : ∃ m, n = m + 1 := ⟨n - 1, by omega⟩
    rw [List.forall_mem_cons] at hes
    have hbytes : C.writeEntries (e :: es) = C.writeBegin e.name (C.tag e.type) e.number ++
        (C.write e.type e.value ++ (C.writeEnd ++ C.writeEntries es)) := by
      simp only [writeEntries, List.flatMap_cons, writeEntry, List.append_assoc]
    rw [hbytes, readFields]
    exact (C.reads_begin _ _ _).bind ((reads_field hes.1).bind (C.reads_end.bind
      (ih hes.2 (by simpa using hn))))

omit [DecidableEq I] [DecidableEq U] [DecidableEq G] in
private theorem length_le_writeEntries (C : FieldCodec B ε U G I Value)
    (es : List (Entry I Value)) : es.length ≤ (C.writeEntries es).length := by
  induction es with
  | nil => exact Nat.zero_le _
  | cons e es ih =>
    have hbegin := List.length_pos_of_ne_nil (C.writeBegin_ne_nil e.name (C.tag e.type) e.number)
    simp only [writeEntries, List.flatMap_cons, writeEntry, List.length_append,
      List.length_cons] at ih ⊢
    omega

/-- **What a reader finds.** It finds the last value that was written under each number that it
knows with the type that it expects, whatever else is there, and leaves what comes after it. -/
theorem reads_entries (hspec : (spec.map (·.number)).Nodup) (hes : ∀ e ∈ es, C.Readable spec e) :
    Reads (C.readRecord spec) (C.writeEntries es) (lastOf spec es) := by
  intro rest
  have hlen : es.length < (C.writeEntries es ++ rest).length + 1 := by
    have hle := length_le_writeEntries C es
    rw [List.length_append]
    omega
  have hfold : es.foldl Entry.assign (fun _ => none) = lastOf spec es := by
    funext i
    rw [foldl_assign hspec, Option.or_none]
  rw [readRecord, Prog.run_get_bind, reads_fields hes hlen rest, hfold]

/-- Where a writer and a reader have a number with a tag in common, they mean the same type. -/
def Compatible (spec spec' : Spec U I) : Prop :=
  ∀ i j, (spec.get i).number = (spec'.get j).number →
    C.tag (spec.get i).type = C.tag (spec'.get j).type → (spec.get i).type = (spec'.get j).type

/-- **What a reader sees of a record** that was written with other fields. -/
theorem reads_record {spec' : Spec U I} {r : Record Value spec}
    (hspec : (spec.map (·.number)).Nodup) (hspec' : (spec'.map (·.number)).Nodup)
    (hcompat : C.Compatible spec spec') (hfits : ∀ i, C.Fits _ (r i)) :
    Reads (C.readRecord spec') (C.writeRecord r) (r.seenBy spec') := by
  rw [← lastOf_record hspec]
  refine reads_entries hspec' fun e he => ?_
  obtain ⟨i, -, rfl⟩ := List.mem_map.mp he
  exact ⟨hfits i, fun j hj => hcompat i j (Spec.number_of_find hj).symm⟩

end FieldCodec

end Wire
