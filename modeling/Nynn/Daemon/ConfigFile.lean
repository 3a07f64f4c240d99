import Nynn.Daemon.NetworkConfig
import Nynn.Library.InputStream

/-!
# The format of the configuration file

`loadconfig` reads the file line by line into a buffer of 128 bytes until the stream is at the end
of the file. It reports a line that does not fit and an entry for which there is no room. It does
not test what the tokenizer and `inet_pton` return and how long the fields are, and a null character
hides the rest of its line.

Source: `loadconfig` in `nynn_daemon.cpp`.

## Main definitions

* `Nynn.loadFile`: the loop of `loadconfig` over the stream.
* `Nynn.IsEntry`: a line that has a host name, an address and a port.
* `Nynn.ReadsFormat`: a result that agrees with the format of the file.

## Main results

* `Nynn.loadLoop_eq`: the loop ends, and it reads the lines of the file.
* `Nynn.loadFile_readsFormat_iff`: the files on which the result agrees with the format.
-/

namespace Nynn

/-! ### The loop -/

/-- The loop of `loadconfig` after `links` were read; `none` if it does not end in `fuel` turns. -/
def loadLoop (size : ℕ) (old : ℕ → UInt32) :
    ℕ → InputStream Char → List Link → Option (Except LoadFault (List Link))
  | 0, _, _ => none
  | fuel + 1, cfgFin, links =>
    let (cfgFin, line) := cfgFin.getline '\n' 128
    if cfgFin.failbit && !cfgFin.eofbit then some (.error .lineTooLong)
    else match loadLine size old links line with
      | .error fault => some (.error fault)
      | .ok links =>
        if cfgFin.eofbit then some (.ok (sortLinks links)) else loadLoop size old fuel cfgFin links

/-- `loadconfig` of a file with the contents `cfg`. -/
def loadFile (size : ℕ) (old : ℕ → UInt32) (cfg : Text) : Option (Except LoadFault (List Link)) :=
  loadLoop size old (cfg.length + 1) (.ofText cfg) []

variable {size : ℕ} {old : ℕ → UInt32} {links : List Link} {line cfg : Text} {lines : List Text}
  {l : Link}

/-- A turn of the loop for a line that does not fit into the buffer. -/
private theorem loadLoop_long (fuel : ℕ) (h : 128 ≤ (cfg.takeWhile (· != '\n')).length) :
    loadLoop size old (fuel + 1) (.ofText cfg) links = some (.error .lineTooLong) := by
  rw [loadLoop, InputStream.getline_long h]
  rfl

/-- The loop ends and reads the lines of the file. -/
theorem loadLoop_eq {fuel : ℕ} (h : cfg.length < fuel) :
    loadLoop size old fuel (.ofText cfg) links =
      some (sortLinks <$> (cfg.splitOn '\n').foldlM (loadLine size old) links) := by
  induction cfg using InputStream.lines_induction '\n' generalizing fuel links with
  | last line hline =>
    obtain ⟨fuel, rfl⟩ := Nat.exists_eq_add_one_of_ne_zero (Nat.ne_zero_of_lt h)
    rw [InputStream.splitOn_last hline, List.foldlM_cons]
    by_cases hlen : line.length < 128
    · rw [loadLoop, InputStream.getline_last hline hlen]
      simp only [Bool.not_true, Bool.and_false, Bool.false_eq_true, if_false, if_true]
      cases loadLine size old links line <;> rfl
    · rw [Nat.not_lt] at hlen
      rw [loadLoop_long fuel (by rwa [InputStream.takeWhile_last hline]),
        loadLine_tooLong hlen]
      rfl
  | line line rest hline ih =>
    obtain ⟨fuel, rfl⟩ := Nat.exists_eq_add_one_of_ne_zero (Nat.ne_zero_of_lt h)
    rw [InputStream.splitOn_line hline, List.foldlM_cons]
    by_cases hlen : line.length < 128
    · rw [List.length_append, List.length_cons] at h
      rw [loadLoop, InputStream.getline_line hline hlen]
      simp only [InputStream.ofText, Bool.false_and, Bool.false_eq_true, if_false]
      cases loadLine size old links line with
      | error fault => rfl
      | ok links => exact ih (by omega)
    · rw [Nat.not_lt] at hlen
      rw [loadLoop_long fuel (by rwa [InputStream.takeWhile_line hline]),
        loadLine_tooLong hlen]
      rfl

theorem loadFile_eq (size : ℕ) (old : ℕ → UInt32) (cfg : Text) :
    loadFile size old cfg = some (loadconfig size old cfg) :=
  loadLoop_eq (Nat.lt_succ_self _)

/-! ### The format -/

/-- The words of a line without its comment. -/
def lineWords (line : Text) : List Text :=
  Words.words (blanks.contains ·) (line.takeWhile (· != '#'))

/-- The line has a host name that fits, an address and a port. -/
def IsEntry (line : Text) (l : Link) : Prop :=
  ∃ addr port, lineWords line = [l.hostname, addr, port] ∧ '\x00' ∉ line.takeWhile (· != '#') ∧
    l.hostname.length < 32 ∧ inetPton addr = some l.hostaddr ∧
    port.all Char.isDigit ∧ decimal port < 2 ^ 16 ∧ l.port = htons (UInt16.ofNat (decimal port))

/-- The lines that are not empty without the comments and blanks. -/
def entryLines (lines : List Text) : List Text := lines.filter (lineWords · ≠ [])

/-- There is an error to report: a line is too long, there are too many entries, or a line has
something else than an entry. -/
def HasError (size : ℕ) (lines : List Text) : Prop :=
  (∃ line ∈ lines, 128 ≤ line.length) ∨ size < (entryLines lines).length ∨
    ∃ line ∈ entryLines lines, ∀ l, ¬IsEntry line l

/-- The result agrees with the format: an error that is there is reported, or there is none and the
links are the entries, sorted. -/
def ReadsFormat (size : ℕ) (lines : List Text) : Except LoadFault (List Link) → Prop
  | .error .lineTooLong | .error .tooManyHosts => HasError size lines
  | .error .noField | .error .fieldTooLong => False
  | .ok links => ¬HasError size lines ∧ ∃ entries, List.Forall₂ IsEntry (entryLines lines) entries ∧
      links.Perm entries ∧ links.Pairwise fun a b => linkLt b a = false

/-! ### The files that are read -/

/-- The loop gets to the next line if there is room for an entry. -/
def Readable (line : Text) : Prop := line.length < 128 ∧ (fields line = [] ∨ HasFields line)

/-- A line that is too long, or one for which there is no room, comes before any line whose fields
are missing or too long. -/
def Stops (size : ℕ) (lines : List Text) : Prop :=
  ∃ before line after, lines = before ++ line :: after ∧ (∀ line ∈ before, Readable line) ∧
    (128 ≤ line.length ∨ HasFields line ∧ line.length < 128 ∧
      size ≤ (before.filter (fields · ≠ [])).length)

/-- Every line is empty, or an entry with a port that fits into its buffer, and there is room. -/
def AllEntries (size : ℕ) (lines : List Text) : Prop :=
  (∀ line ∈ lines, line.length < 128 ∧
    (lineWords line = [] ∨ (∃ l, IsEntry line l) ∧ ∀ word ∈ lineWords line, word.length < 32)) ∧
  (entryLines lines).length ≤ size

/-! ### Runs of the loop -/

/-- A line that can be read. -/
private theorem loadLine_readable (size : ℕ) (old : ℕ → UInt32) (links : List Link)
    (h : Readable line) :
    fields line = [] ∧ loadLine size old links line = .ok links ∨
    fields line ≠ [] ∧ HasFields line ∧
      (size ≤ links.length ∧ loadLine size old links line = .error .tooManyHosts ∨
        links.length < size ∧ ∃ l, loadLine size old links line = .ok (links ++ [l])) := by
  obtain ⟨hlen, hfields | ⟨hostname, addr, port, rest, hwords, hname, haddr, hport⟩⟩ := h
  · exact Or.inl ⟨hfields, loadLine_blank hlen hfields⟩
  · have hline : loadLine size old links line = _ :=
      loadLine_fields hlen hwords hname haddr hport
    have hne : fields line ≠ [] := by
      rw [hwords]
      exact List.cons_ne_nil hostname _
    refine Or.inr ⟨hne, ⟨hostname, addr, port, rest, hwords, hname, haddr, hport⟩, ?_⟩
    rcases Nat.lt_or_ge links.length size with hroom | hfull
    · exact Or.inr ⟨hroom, _, by rw [hline, if_neg (Nat.not_le.mpr hroom)]⟩
    · exact Or.inl ⟨hfull, by rw [hline, if_pos hfull]⟩

/-- A line that cannot be read. -/
private theorem loadLine_unreadable (size : ℕ) (old : ℕ → UInt32) (links : List Link)
    (h : ¬Readable line) :
    ∃ fault : LoadFault, loadLine size old links line = .error fault ∧
      (128 ≤ line.length ∧ fault = .lineTooLong ∨ fault.IsFault) := by
  rcases Nat.lt_or_ge line.length 128 with hlen | hlen
  · rw [Readable, not_and_or, not_or] at h
    obtain ⟨hne, hfields⟩ := h.resolve_left (not_not_intro hlen)
    obtain ⟨fault, hline, hfault⟩ := loadLine_fault hlen hne hfields
    exact ⟨fault, hline, Or.inr hfault⟩
  · exact ⟨.lineTooLong, loadLine_tooLong hlen, Or.inl ⟨hlen, rfl⟩⟩

/-- The loop reports an error. -/
def Reports (r : Except LoadFault (List Link)) : Prop :=
  r = .error .lineTooLong ∨ r = .error .tooManyHosts

private theorem foldlM_readable (size : ℕ) (old : ℕ → UInt32) (links : List Link)
    (h : ∀ line ∈ lines, Readable line) :
    lines.foldlM (loadLine size old) links = .error .tooManyHosts ∨
    ∃ links', lines.foldlM (loadLine size old) links = .ok links' ∧
      links'.length = links.length + (lines.filter (fields · ≠ [])).length := by
  induction lines generalizing links with
  | nil => exact Or.inr ⟨links, rfl, rfl⟩
  | cons line lines ih =>
    rw [List.forall_mem_cons] at h
    rw [List.foldlM_cons]
    rcases loadLine_readable size old links h.1 with
      ⟨hnil, hline⟩ | ⟨hne, -, ⟨-, hline⟩ | ⟨-, l, hline⟩⟩
    · rw [hline, List.filter_cons_of_neg (by simpa using hnil)]
      exact ih _ h.2
    · exact Or.inl (by rw [hline]; rfl)
    · rw [hline, List.filter_cons_of_pos (by simpa using hne)]
      refine (ih _ h.2).imp_right fun ⟨links', hfold, hlength⟩ => ⟨links', hfold, ?_⟩
      rw [hlength, List.length_append, List.length_singleton, List.length_cons]
      omega

/-- The loop stops with an error that it reports. -/
private theorem reports_of_stops (h : Stops size lines) :
    Reports (lines.foldlM (loadLine size old) []) := by
  obtain ⟨before, line, after, rfl, hbefore, hline⟩ := h
  rw [List.foldlM_append]
  rcases foldlM_readable size old [] hbefore with hmany | ⟨links, hfold, hlength⟩
  · exact Or.inr (by rw [hmany]; rfl)
  · rw [hfold]
    dsimp only [bind, Except.bind]
    rw [List.foldlM_cons]
    rcases hline with hlong | ⟨⟨_, _, _, _, hwords, hname, haddr, hport⟩, hlen, hfull⟩
    · exact Or.inl (by rw [loadLine_tooLong hlong]; rfl)
    · have hlinks : size ≤ links.length := by
        rw [hlength, List.length_nil, Nat.zero_add]
        exact hfull
      exact Or.inr (by rw [loadLine_fields hlen hwords hname haddr hport, if_pos hlinks]; rfl)

private theorem Stops.cons (h : Stops (size - if fields line = [] then 0 else 1) lines)
    (hline : Readable line) : Stops size (line :: lines) := by
  obtain ⟨before, line', after, rfl, hbefore, hline'⟩ := h
  refine ⟨line :: before, line', after, rfl, List.forall_mem_cons.mpr ⟨hline, hbefore⟩,
    hline'.imp_right fun ⟨hfields, hlen, hfull⟩ => ⟨hfields, hlen, ?_⟩⟩
  by_cases hnil : fields line = []
  · rw [if_pos hnil] at hfull
    rw [List.filter_cons_of_neg (by simpa using hnil)]
    omega
  · rw [if_neg hnil] at hfull
    rw [List.filter_cons_of_pos (by simpa using hnil), List.length_cons]
    omega

private theorem stops_of_reports (h : Reports (lines.foldlM (loadLine size old) links)) :
    Stops (size - links.length) lines := by
  induction lines generalizing links with
  | nil => rcases h with h | h <;> cases h
  | cons line lines ih =>
    rw [List.foldlM_cons] at h
    by_cases hline : Readable line
    · rcases loadLine_readable size old links hline with
        ⟨hnil, hload⟩ | ⟨hne, hfields, ⟨hfull, hload⟩ | ⟨hroom, l, hload⟩⟩
      · rw [hload] at h
        refine Stops.cons ?_ hline
        rw [if_pos hnil]
        exact ih h
      · exact ⟨[], line, lines, rfl, nofun, Or.inr ⟨hfields, hline.1, by omega⟩⟩
      · rw [hload] at h
        refine Stops.cons ?_ hline
        rw [if_neg hne, Nat.sub_sub]
        simpa using ih h
    · obtain ⟨fault, hload, ⟨hlong, -⟩ | hfault⟩ := loadLine_unreadable size old links hline
      · exact ⟨[], line, lines, rfl, nofun, Or.inl hlong⟩
      · rw [hload] at h
        rcases h with h | h <;> rcases hfault with rfl | rfl <;> cases h

private theorem readable_of_ok {links' : List Link}
    (h : lines.foldlM (loadLine size old) links = .ok links') : ∀ line ∈ lines, Readable line := by
  induction lines generalizing links with
  | nil => exact nofun
  | cons line lines ih =>
    rw [List.foldlM_cons] at h
    have hline : Readable line := by
      by_contra hnot
      obtain ⟨fault, hload, -⟩ := loadLine_unreadable size old links hnot
      rw [hload] at h
      cases h
    cases hload : loadLine size old links line with
    | error fault =>
      rw [hload] at h
      cases h
    | ok links₁ =>
      rw [hload] at h
      exact List.forall_mem_cons.mpr ⟨hline, ih h⟩

/-! ### Entries -/

/-- A line without null characters is read as a whole. -/
private theorem fields_eq (h : '\x00' ∉ line.takeWhile (· != '#')) :
    fields line = lineWords line := by
  have hall : (line.takeWhile (· != '#')).takeWhile (· != '\x00') =
      line.takeWhile (· != '#') := InputStream.takeWhile_last h
  have hcomm : (cstr line).takeWhile (· != '#') = line.takeWhile (· != '#') := by
    rw [cstr, List.takeWhile_takeWhile]
    conv_rhs => rw [← hall, List.takeWhile_takeWhile]
    simp only [and_comm]
  rw [fields, lineWords, hcomm]

private theorem fields_of_blank (h : lineWords line = []) : fields line = [] := by
  rw [← h]
  refine fields_eq fun hmem => ?_
  rw [lineWords, Words.words_eq_nil_iff, List.dropWhile_eq_nil_iff] at h
  exact absurd (h _ hmem) (by decide)

private theorem atoi_eq {port : Text} (h : port.all Char.isDigit) :
    atoi port = min (2 ^ 63 - 1) (decimal port : ℤ) := by
  have htake : port.takeWhile Char.isDigit = port :=
    List.takeWhile_eq_self_iff.mpr (List.all_eq_true.mp h)
  cases port with
  | nil => rfl
  | cons c cs =>
    have hdigit : c.isDigit = true := (List.all_eq_true.mp h) c List.mem_cons_self
    have hspace := isspace_of_isDigit hdigit
    rw [atoi, List.dropWhile_cons_of_neg (by rw [hspace]; exact Bool.false_ne_true)]
    dsimp only
    split
    next heq => cases heq; exact absurd hdigit (by decide)
    next heq => cases heq; exact absurd hdigit (by decide)
    next => rw [htake]

private theorem IsEntry.lists (h : IsEntry line l)
    (hshort : ∀ word ∈ lineWords line, word.length < 32) : LineLists line l := by
  obtain ⟨addr, port, hwords, hnul, hname, haddr, hdigits, hport, hl⟩ := h
  rw [hwords] at hshort
  have hvalue : UInt16.ofInt (atoi port) = UInt16.ofNat (decimal port) := by
    have hmin : min (2 ^ 63 - 1) (decimal port : ℤ) = decimal port := by omega
    rw [atoi_eq hdigits, hmin, UInt16.ofInt]
    congr 1
    omega
  refine ⟨addr, port, [], (fields_eq hnul).trans hwords, hname, ?_, ?_, haddr, ?_⟩
  · exact hshort addr (by simp)
  · exact hshort port (by simp)
  · rw [hvalue, hl]

/-- An error that is reported is there. -/
private theorem hasError_of_stops (h : Stops size lines) : HasError size lines := by
  obtain ⟨before, line, after, rfl, hbefore, hline⟩ := h
  rcases hline with hlong | ⟨⟨_, _, _, _, hwords, -⟩, -, hfull⟩
  · exact Or.inl ⟨line, by simp, hlong⟩
  · have hle : (before.filter (fields · ≠ [])).length ≤ (entryLines before).length := by
      rw [entryLines, ← List.countP_eq_length_filter, ← List.countP_eq_length_filter]
      refine List.countP_mono_left fun line _ hne => ?_
      rw [decide_eq_true_eq] at hne ⊢
      exact mt fields_of_blank hne
    have hne : lineWords line ≠ [] := mt fields_of_blank (by rw [hwords]; exact nofun)
    refine Or.inr (Or.inl ?_)
    rw [entryLines, List.filter_append, List.filter_cons_of_pos (by simpa using hne),
      List.length_append, List.length_cons]
    rw [entryLines] at hle
    omega

private theorem AllEntries.linesList (h : AllEntries size lines) :
    ∃ entries, List.Forall₂ IsEntry (entryLines lines) entries ∧ LinesList lines entries := by
  obtain ⟨h, -⟩ := h
  induction lines with
  | nil => exact ⟨[], .nil, .nil⟩
  | cons line lines ih =>
    rw [List.forall_mem_cons] at h
    obtain ⟨⟨hlen, hline⟩, h⟩ := h
    obtain ⟨entries, hentries, hlist⟩ := ih h
    rcases hline with hblank | ⟨⟨l, hl⟩, hshort⟩
    · have hskip : entryLines (line :: lines) = entryLines lines :=
        List.filter_cons_of_neg (by simpa using hblank)
      rw [hskip]
      exact ⟨entries, hentries, .blank hlen (fields_of_blank hblank) hlist⟩
    · have hne : lineWords line ≠ [] := by
        obtain ⟨_, _, hwords, -⟩ := hl
        rw [hwords]
        exact nofun
      have hkeep : entryLines (line :: lines) = line :: entryLines lines :=
        List.filter_cons_of_pos (by simpa using hne)
      rw [hkeep]
      exact ⟨l :: entries, .cons hl hentries, .host hlen (hl.lists hshort) hlist⟩

private theorem allEntries_of_ok (hread : ∀ line ∈ lines, Readable line)
    (h : ¬HasError size lines) : AllEntries size lines := by
  rw [HasError, not_or, not_or] at h
  obtain ⟨-, hmany, hentry⟩ := h
  refine ⟨fun line hmem => ⟨(hread line hmem).1, ?_⟩, Nat.not_lt.mp hmany⟩
  by_cases hblank : lineWords line = []
  · exact Or.inl hblank
  · have hl : ∃ l, IsEntry line l := by
      by_contra hnone
      exact hentry ⟨line, List.mem_filter.mpr ⟨hmem, by simpa using hblank⟩,
        not_exists.mp hnone⟩
    obtain ⟨l, addr, port, hwords, hnul, -⟩ := id hl
    rw [← fields_eq hnul] at hblank hwords ⊢
    obtain ⟨_, _, _, rest, hfields, hname, haddr, hport⟩ := (hread line hmem).2.resolve_left hblank
    obtain ⟨rfl, rfl, rfl, rfl⟩ : _ ∧ _ ∧ _ ∧ rest = [] := by
      simpa using hfields.symm.trans hwords
    rw [hwords]
    exact Or.inr ⟨hl, by simp [hname, haddr, hport]⟩

private theorem AllEntries.not_hasError (h : AllEntries size lines) : ¬HasError size lines := by
  rintro (⟨line, hmem, hlong⟩ | hmany | ⟨line, hmem, hnone⟩)
  · exact absurd (h.1 line hmem).1 (Nat.not_lt.mpr hlong)
  · exact absurd h.2 (Nat.not_le.mpr hmany)
  · obtain ⟨hmem, hne⟩ := List.mem_filter.mp hmem
    obtain ⟨⟨l, hl⟩, -⟩ := (h.1 line hmem).2.resolve_left (by simpa using hne)
    exact hnone l hl

/-- **The format of the configuration file.** `loadconfig` ends and agrees with the format if and
only if an error that it reports comes before every line with fields that are missing or too long,
or every line is empty or an entry. -/
theorem loadFile_readsFormat_iff (size : ℕ) (old : ℕ → UInt32) (cfg : Text) :
    (∃ r, loadFile size old cfg = some r ∧ ReadsFormat size (cfg.splitOn '\n') r) ↔
      Stops size (cfg.splitOn '\n') ∨ AllEntries size (cfg.splitOn '\n') := by
  constructor
  · rintro ⟨r, hr, hformat⟩
    obtain rfl := Option.some.inj ((loadFile_eq size old cfg).symm.trans hr)
    have hstops (h : Reports ((cfg.splitOn '\n').foldlM (loadLine size old) [])) :
        Stops size (cfg.splitOn '\n') := by
      simpa using stops_of_reports h
    rw [loadconfig] at hformat
    cases hfold : (cfg.splitOn '\n').foldlM (loadLine size old) [] with
    | error fault =>
      rw [hfold] at hformat hstops
      cases fault with
      | lineTooLong => exact Or.inl (hstops (Or.inl rfl))
      | tooManyHosts => exact Or.inl (hstops (Or.inr rfl))
      | noField => exact hformat.elim
      | fieldTooLong => exact hformat.elim
    | ok links =>
      rw [hfold] at hformat
      exact Or.inr (allEntries_of_ok (readable_of_ok hfold) hformat.1)
  · rintro (hstops | hall)
    · rw [loadFile_eq, loadconfig]
      rcases reports_of_stops hstops with hfold | hfold
      · exact ⟨_, rfl, by rw [hfold]; exact hasError_of_stops hstops⟩
      · exact ⟨_, rfl, by rw [hfold]; exact hasError_of_stops hstops⟩
    · obtain ⟨entries, hentries, hlist⟩ := hall.linesList
      have hsize : entries.length ≤ size := hentries.length_eq ▸ hall.2
      refine ⟨_, (loadFile_eq size old cfg).trans
        (congrArg some (loadconfig_of_lists ⟨entries, hlist, .refl entries⟩ hsize)), ?_⟩
      exact ⟨hall.not_hasError, entries, hentries, sortLinks_perm entries,
        sortLinks_pairwise entries⟩

/-- The address and the port are missing. -/
theorem loadFile_readsFormat_false_of_missing :
    loadFile 10 (fun _ => 0) "hostA".toList = some (.error .noField) ∧
      ¬∃ r, loadFile 10 (fun _ => 0) "hostA".toList = some r ∧
        ReadsFormat 10 ("hostA".toList.splitOn '\n') r := by
  have hload : loadFile 10 (fun _ => 0) "hostA".toList = some (.error .noField) := by
    decide +kernel
  refine ⟨hload, ?_⟩
  rintro ⟨r, hr, hformat⟩
  obtain rfl := Option.some.inj (hload.symm.trans hr)
  exact hformat

end Nynn
