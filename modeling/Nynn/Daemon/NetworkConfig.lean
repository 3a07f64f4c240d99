import Nynn.Common.Text
import Nynn.Library.Words
import Mathlib.Algebra.Group.Nat.Defs
import Mathlib.Data.Char
import Mathlib.Data.List.Lex
import Mathlib.Data.List.Sort
import Mathlib.Data.Prod.Lex
import Mathlib.Order.Lex

/-!
# The network configuration

Every daemon reads the hosts from its configuration file. A line has the host name, the address and
the port of a host, separated by blanks; a `#` begins a comment. The links that are read are sorted,
by name, then by address, then by port. The order of the lines of a file does not matter
therefore, and daemons whose files list the same hosts have the same table.

Source: `loadconfig` and `operator<` in `nynn_daemon.cpp`.

## Main definitions

* `Nynn.loadconfig`: the sorted links of a configuration file.
* `Nynn.ListsHosts`: a file lists the given hosts, in any order.

## Main results

* `Nynn.loadconfig_of_lists`: what is read from a file that lists the hosts.
* `Nynn.sortLinks_eq_of_perm`: the table does not depend on the order of the lines.
-/

namespace Nynn

/-- `link_t` as the configuration sets it. The address and the port have the byte order of the
network. -/
structure Link where
  hostname : Text
  hostaddr : UInt32
  port : UInt16
  deriving DecidableEq, Repr

/-! ### Fields -/

/-- The separators of the fields of a line. -/
def blanks : Text := [' ', '\t']

def htons (x : UInt16) : UInt16 := (x <<< 8) ||| (x >>> 8)

/-- One number of a dotted address: at most `255`, without leading zeros. -/
def octet (digits : Text) : Option ℕ :=
  if digits ≠ [] ∧ digits.all Char.isDigit ∧ (digits.head? = some '0' → digits = ['0']) ∧
      decimal digits ≤ 255 then
    some (decimal digits)
  else none

/-- `inet_pton` for `AF_INET`; `none` where it does not return `1`. -/
def inetPton (src : Text) : Option UInt32 :=
  match src.splitOn '.' with
  | [a, b, c, d] => do
    let a ← octet a
    let b ← octet b
    let c ← octet c
    let d ← octet d
    return UInt32.ofNat (a + 2 ^ 8 * b + 2 ^ 16 * c + 2 ^ 24 * d)
  | _ => none

/-! ### Reading a file -/

/-- Why `loadconfig` returns no links: it returns `false` for the first two; the others are a
`strcpy` from the null pointer that `strtok_r` returned, and one into a buffer of 32 bytes that is
too small. -/
inductive LoadFault
  | lineTooLong
  | tooManyHosts
  | noField
  | fieldTooLong
  deriving DecidableEq, Repr

/-- `strcpy(buffer, strtok_r(line, " \t", &saveptr))`: the field, and the rest of the line. -/
def nextField (line : Text) : Except LoadFault (Text × Text) :=
  match Words.next (blanks.contains ·) line with
  | none => throw .noField
  | some (field, saveptr) => if 32 ≤ field.length then throw .fieldTooLong else pure (field, saveptr)

/-- One line of the file. `size` is the length of the array of the links, and `old` its addresses
before, which stay where `inet_pton` fails. -/
def loadLine (size : ℕ) (old : ℕ → UInt32) (links : List Link) (line : Text) :
    Except LoadFault (List Link) := do
  if 128 ≤ line.length then throw .lineTooLong
  let line := rtrim blanks (ltrim blanks (chop '#' (cstr line)))
  if line.length = 0 then return links
  let (hostname, saveptr) ← nextField line
  let (hostaddr, saveptr) ← nextField saveptr
  let (port, _) ← nextField saveptr
  if size ≤ links.length then throw .tooManyHosts
  return links ++ [⟨hostname, (inetPton hostaddr).getD (old links.length),
    htons (UInt16.ofInt (atoi port))⟩]

/-- The sign of `strcmp`. -/
def strcmp (lhs rhs : Text) : Ordering := compareOfLessAndEq lhs rhs

/-- `operator<`. -/
def linkLt (lhs rhs : Link) : Bool :=
  let res := strcmp lhs.hostname rhs.hostname
  if res = .lt then true
  else if res = .gt then false
  else if lhs.hostaddr = rhs.hostaddr then lhs.port < rhs.port
  else lhs.hostaddr < rhs.hostaddr

/-- `sort(links, links + k)`. -/
def sortLinks (links : List Link) : List Link :=
  links.insertionSort fun a b => ¬linkLt b a

/-- The links of a configuration file. Their number is the value of the call. -/
def loadconfig (size : ℕ) (old : ℕ → UInt32) (cfg : Text) : Except LoadFault (List Link) :=
  sortLinks <$> (cfg.splitOn '\n').foldlM (loadLine size old) []

/-! ### The order of the links -/

/-- The key of the order. -/
private def Link.key (l : Link) : Text ×ₗ ℕ ×ₗ ℕ :=
  toLex (l.hostname, toLex (l.hostaddr.toNat, l.port.toNat))

private theorem Link.key_injective : Function.Injective Link.key := by
  intro a b h
  rw [Link.key, Link.key, toLex_inj, Prod.mk.injEq, toLex_inj, Prod.mk.injEq] at h
  obtain ⟨hname, haddr, hport⟩ := h
  cases a
  cases b
  rw [Link.mk.injEq]
  exact ⟨hname, UInt32.toNat_inj.mp haddr, UInt16.toNat_inj.mp hport⟩

private theorem linkLt_iff {a b : Link} : linkLt a b = true ↔ a.key < b.key := by
  rw [linkLt, strcmp, compareOfLessAndEq, Link.key, Link.key, Prod.Lex.toLex_lt_toLex,
    Prod.Lex.toLex_lt_toLex]
  rcases lt_trichotomy a.hostname b.hostname with h | h | h
  · simp [h]
  · by_cases haddr : a.hostaddr = b.hostaddr
    · simp [h, haddr, UInt16.lt_iff_toNat_lt]
    · have hne : a.hostaddr.toNat ≠ b.hostaddr.toNat := mt UInt32.toNat_inj.mp haddr
      simp [h, haddr, hne, UInt32.lt_iff_toNat_lt]
  · simp [h.not_gt, h.ne']

private theorem not_linkLt_iff {a b : Link} : ¬linkLt b a = true ↔ a.key ≤ b.key := by
  rw [linkLt_iff, not_lt]

private theorem sortLinks_pairwise_le (links : List Link) :
    (sortLinks links).Pairwise fun a b => ¬linkLt b a = true := by
  have htotal : Std.Total fun a b : Link => ¬linkLt b a = true :=
    ⟨fun a b => by rw [not_linkLt_iff, not_linkLt_iff]; exact le_total _ _⟩
  have htrans : IsTrans Link fun a b => ¬linkLt b a = true :=
    ⟨fun a b c hab hbc =>
      not_linkLt_iff.mpr ((not_linkLt_iff.mp hab).trans (not_linkLt_iff.mp hbc))⟩
  exact List.pairwise_insertionSort _ links

theorem sortLinks_pairwise (links : List Link) :
    (sortLinks links).Pairwise fun a b => linkLt b a = false :=
  (sortLinks_pairwise_le links).imp fun h => Bool.eq_false_of_not_eq_true h

/-- The table does not depend on the order of the lines. -/
theorem sortLinks_eq_of_perm {links links' : List Link} (h : links.Perm links') :
    sortLinks links = sortLinks links' := by
  refine List.Perm.eq_of_pairwise (fun a b _ _ hab hba => ?_)
    (sortLinks_pairwise_le links) (sortLinks_pairwise_le links') ?_
  · exact Link.key_injective (le_antisymm (not_linkLt_iff.mp hab) (not_linkLt_iff.mp hba))
  · exact (List.perm_insertionSort _ links).trans
      (h.trans (List.perm_insertionSort _ links').symm)

theorem sortLinks_perm (links : List Link) : (sortLinks links).Perm links :=
  List.perm_insertionSort _ links

/-! ### Files that list the hosts -/

/-- The fields of a line. -/
def fields (line : Text) : List Text :=
  Words.words (blanks.contains ·) ((cstr line).takeWhile (· != '#'))

/-- The line lists the host. What is behind the third field does not matter. -/
def LineLists (line : Text) (l : Link) : Prop :=
  ∃ addr port rest, fields line = l.hostname :: addr :: port :: rest ∧
    l.hostname.length < 32 ∧ addr.length < 32 ∧ port.length < 32 ∧
    inetPton addr = some l.hostaddr ∧ htons (UInt16.ofInt (atoi port)) = l.port

/-- The lines list the hosts, each once and in this order. A line has at most 127 characters. -/
inductive LinesList : List Text → List Link → Prop
  | nil : LinesList [] []
  | blank {line : Text} {lines : List Text} {hosts : List Link} (hlen : line.length < 128)
      (hfields : fields line = []) (h : LinesList lines hosts) : LinesList (line :: lines) hosts
  | host {line : Text} {lines : List Text} {l : Link} {hosts : List Link}
      (hlen : line.length < 128) (hfields : LineLists line l) (h : LinesList lines hosts) :
      LinesList (line :: lines) (l :: hosts)

/-- The file lists the hosts, each once and in an order of its own. -/
def ListsHosts (cfg : Text) (hosts : List Link) : Prop :=
  ∃ hosts', LinesList (cfg.splitOn '\n') hosts' ∧ hosts'.Perm hosts

private theorem words_trim (line : Text) :
    Words.words (blanks.contains ·) (rtrim blanks (ltrim blanks (chop '#' (cstr line)))) =
      fields line := by
  rw [rtrim, ltrim, Words.words_rdropWhile, Words.words_dropWhile, chop, fields]

private theorem nextField_of_words {line field : Text} {rest : List Text}
    (h : Words.words (blanks.contains ·) line = field :: rest) (hlen : field.length < 32) :
    ∃ saveptr, nextField line = .ok (field, saveptr) ∧
      Words.words (blanks.contains ·) saveptr = rest := by
  cases hnext : Words.next (blanks.contains ·) line with
  | none => rw [Words.next_eq_none_iff.mp hnext] at h; cases h
  | some r =>
    obtain ⟨field', saveptr⟩ := r
    rw [Words.words_of_next hnext, List.cons.injEq] at h
    obtain ⟨rfl, hrest⟩ := h
    exact ⟨saveptr, by rw [nextField, hnext]; exact if_neg (by omega), hrest⟩

/-- `strcpy` from the null pointer, or into a buffer that is too small. -/
def LoadFault.IsFault (fault : LoadFault) : Prop := fault = .noField ∨ fault = .fieldTooLong

/-- The next field is there and fits, or it is missing or too long. -/
private theorem nextField_cases (line : Text) :
    (∃ field saveptr, nextField line = .ok (field, saveptr) ∧ field.length < 32 ∧
      Words.words (blanks.contains ·) line =
        field :: Words.words (blanks.contains ·) saveptr) ∨
    ∃ fault : LoadFault, nextField line = .error fault ∧ fault.IsFault := by
  cases hnext : Words.next (blanks.contains ·) line with
  | none => exact Or.inr ⟨.noField, by rw [nextField, hnext]; rfl, Or.inl rfl⟩
  | some r =>
    by_cases hlen : 32 ≤ r.1.length
    · exact Or.inr ⟨.fieldTooLong, by rw [nextField, hnext]; exact if_pos hlen, Or.inr rfl⟩
    · exact Or.inl ⟨r.1, r.2, by rw [nextField, hnext]; exact if_neg hlen, Nat.not_le.mp hlen,
        Words.words_of_next hnext⟩

variable {size : ℕ} {old : ℕ → UInt32} {links : List Link} {line : Text}

theorem loadLine_tooLong (hlen : 128 ≤ line.length) :
    loadLine size old links line = .error .lineTooLong := by
  rw [loadLine, if_pos hlen]
  rfl

/-- A line that lists no host. -/
theorem loadLine_blank (hlen : line.length < 128) (hfields : fields line = []) :
    loadLine size old links line = .ok links := by
  have hnil : rtrim blanks (ltrim blanks (chop '#' (cstr line))) = [] := by
    rw [fields, Words.words_eq_nil_iff] at hfields
    rw [rtrim, ltrim, chop, hfields, List.rdropWhile_nil]
  rw [loadLine, if_neg (by omega), hnil]
  rfl

/-- The first three fields of the line fit into the buffers. -/
def HasFields (line : Text) : Prop :=
  ∃ hostname addr port rest, fields line = hostname :: addr :: port :: rest ∧
    hostname.length < 32 ∧ addr.length < 32 ∧ port.length < 32

/-- A line with fields. -/
theorem loadLine_fields {hostname addr port : Text} {rest : List Text} (hlen : line.length < 128)
    (hwords : fields line = hostname :: addr :: port :: rest) (hname : hostname.length < 32)
    (haddr : addr.length < 32) (hport : port.length < 32) :
    loadLine size old links line = if size ≤ links.length then .error .tooManyHosts
      else .ok (links ++ [⟨hostname, (inetPton addr).getD (old links.length),
        htons (UInt16.ofInt (atoi port))⟩]) := by
  rw [← words_trim] at hwords
  obtain ⟨s₁, h₁, hwords₁⟩ := nextField_of_words hwords hname
  obtain ⟨s₂, h₂, hwords₂⟩ := nextField_of_words hwords₁ haddr
  obtain ⟨s₃, h₃, -⟩ := nextField_of_words hwords₂ hport
  have hne : (rtrim blanks (ltrim blanks (chop '#' (cstr line)))).length ≠ 0 := by
    intro h
    rw [List.length_eq_zero_iff.mp h] at hwords
    cases hwords
  rw [loadLine, if_neg (by omega)]
  dsimp only [bind, Except.bind, pure, Except.pure]
  rw [if_neg hne, h₁]
  dsimp only
  rw [h₂]
  dsimp only
  rw [h₃]
  rfl

/-- A line whose fields are missing or too long. -/
theorem loadLine_fault (hlen : line.length < 128) (hne : fields line ≠ [])
    (hfields : ¬HasFields line) :
    ∃ fault : LoadFault, loadLine size old links line = .error fault ∧ fault.IsFault := by
  have htrim : (rtrim blanks (ltrim blanks (chop '#' (cstr line)))).length ≠ 0 := by
    intro h
    rw [← words_trim, List.length_eq_zero_iff.mp h] at hne
    exact hne rfl
  rw [loadLine, if_neg (by omega)]
  dsimp only [bind, Except.bind, pure, Except.pure]
  rw [if_neg htrim]
  rcases nextField_cases (rtrim blanks (ltrim blanks (chop '#' (cstr line)))) with
    ⟨hostname, s₁, h₁, hname, hwords₁⟩ | ⟨fault, h₁, hfault⟩
  swap
  · exact ⟨fault, by rw [h₁], hfault⟩
  rcases nextField_cases s₁ with ⟨addr, s₂, h₂, haddr, hwords₂⟩ | ⟨fault, h₂, hfault⟩
  swap
  · exact ⟨fault, by rw [h₁]; dsimp only; rw [h₂], hfault⟩
  rcases nextField_cases s₂ with ⟨port, s₃, h₃, hport, hwords₃⟩ | ⟨fault, h₃, hfault⟩
  swap
  · exact ⟨fault, by rw [h₁]; dsimp only; rw [h₂]; dsimp only; rw [h₃], hfault⟩
  refine absurd ⟨hostname, addr, port, Words.words (blanks.contains ·) s₃, ?_, hname, haddr,
    hport⟩ hfields
  rw [← words_trim, hwords₁, hwords₂, hwords₃]

/-- A line that lists a host. -/
private theorem loadLine_host {l : Link} (hlen : line.length < 128) (hfields : LineLists line l)
    (hsize : links.length < size) : loadLine size old links line = .ok (links ++ [l]) := by
  obtain ⟨addr, port, rest, hwords, hname, haddr, hport, hpton, hport'⟩ := hfields
  rw [loadLine_fields hlen hwords hname haddr hport, if_neg (by omega), hpton, hport',
    Option.getD_some]

private theorem foldlM_loadLine {lines : List Text} {hosts : List Link}
    (h : LinesList lines hosts) (hsize : links.length + hosts.length ≤ size) :
    lines.foldlM (loadLine size old) links = .ok (links ++ hosts) := by
  induction h generalizing links with
  | nil => rw [List.foldlM_nil, List.append_nil]; rfl
  | blank hlen hfields _ ih =>
    rw [List.foldlM_cons, loadLine_blank hlen hfields]
    exact ih hsize
  | @host line lines l hosts hlen hfields _ ih =>
    rw [List.length_cons] at hsize
    have hroom : links.length < size := by omega
    rw [List.foldlM_cons, loadLine_host hlen hfields hroom, List.append_cons links l hosts]
    refine ih ?_
    rw [List.length_append, List.length_singleton]
    omega

/-- **The table of a daemon.** A file that lists the hosts gives their table, if there is room for
them. -/
theorem loadconfig_of_lists {cfg : Text} {hosts : List Link} (h : ListsHosts cfg hosts)
    (hsize : hosts.length ≤ size) : loadconfig size old cfg = .ok (sortLinks hosts) := by
  obtain ⟨hosts', hlines, hperm⟩ := h
  rw [loadconfig, foldlM_loadLine hlines (by rw [List.length_nil, hperm.length_eq]; omega),
    List.nil_append, sortLinks_eq_of_perm hperm.symm]
  rfl

end Nynn
