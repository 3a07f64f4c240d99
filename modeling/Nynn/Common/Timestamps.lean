import Nynn.Common.Text
import Nynn.Library.Calendar

/-!
# Timestamps

`time2str` prints a time in Coordinated Universal Time, and `str2time` reads a time in the time zone
of the host. A timestamp that is printed and read is off by the offset of the time zone, and so is
a date that is read and printed. `str2time` also leaves it to chance whether the time is taken for
one in daylight saving time: nothing sets `tm_isdst`.

Source: `time2str` and `str2time` in `nynn_mm_common.h`.

## Main definitions

* `Nynn.strftime`, `Nynn.strptime`, `Nynn.mktime`: the functions of the system.
* `Nynn.time2str`, `Nynn.str2time`: the functions of the code.

## Main results

* `Nynn.strptime_strftime`: what is printed is read.
* `Nynn.timestamps_survive_iff`: the round trips in both directions.
-/

namespace Nynn

open Calendar

/-! ### Times and texts of the system -/

/-- The fields of `struct tm` that are printed, read or converted. -/
structure Tm where
  tm_sec : ℤ
  tm_min : ℤ
  tm_hour : ℤ
  tm_mday : ℤ
  tm_mon : ℤ
  tm_year : ℤ
  tm_isdst : ℤ
  deriving DecidableEq, Repr

/-- The numbers of a format. -/
inductive Field
  | Y | m | d | H | M | S
  deriving DecidableEq, Repr

/-- The conversions of a format. -/
inductive Conversion
  | field (f : Field)
  | char (c : Char)
  deriving DecidableEq, Repr

/-- `"%Y-%m-%d %T"`, where `%T` is `%H:%M:%S`. -/
def timeFormat : List Conversion :=
  [.field .Y, .char '-', .field .m, .char '-', .field .d, .char ' ', .field .H, .char ':',
    .field .M, .char ':', .field .S]

namespace Field

/-- The greatest number of digits that is read. -/
def width : Field → ℕ
  | Y => 4
  | m | d | H | M | S => 2

def lo : Field → ℕ
  | m | d => 1
  | Y | H | M | S => 0

def hi : Field → ℕ
  | Y => 9999
  | m => 12
  | d => 31
  | H => 23
  | M => 59
  | S => 60

def get (tt : Tm) : Field → ℤ
  | Y => tt.tm_year + 1900
  | m => tt.tm_mon + 1
  | d => tt.tm_mday
  | H => tt.tm_hour
  | M => tt.tm_min
  | S => tt.tm_sec

def set (n : ℤ) (tt : Tm) : Field → Tm
  | Y => { tt with tm_year := n - 1900 }
  | m => { tt with tm_mon := n - 1 }
  | d => { tt with tm_mday := n }
  | H => { tt with tm_hour := n }
  | M => { tt with tm_min := n }
  | S => { tt with tm_sec := n }

end Field

/-- A decimal number without leading zeros. -/
def decimalText (n : ℤ) : Text :=
  if n < 0 then '-' :: Nat.toDigits 10 n.natAbs else Nat.toDigits 10 n.natAbs

def twoDigits (n : ℤ) : Text := if 0 ≤ n ∧ n < 10 then '0' :: decimalText n else decimalText n

/-- What `strftime` prints for a conversion. The year has no leading zeros. -/
def Conversion.print (tt : Tm) : Conversion → Text
  | field .Y => decimalText (Field.Y.get tt)
  | field f => twoDigits (f.get tt)
  | char c => [c]

def strftime (conversions : List Conversion) (tt : Tm) : Text :=
  conversions.flatMap (·.print tt)

/-- A number of at most `width` digits in a range, and the text behind it. -/
def getNumber (width lo hi : ℕ) (s : Text) : Option (ℕ × Text) :=
  let digits := (s.takeWhile Char.isDigit).take width
  if digits ≠ [] ∧ lo ≤ decimal digits ∧ decimal digits ≤ hi then
    some (decimal digits, s.drop digits.length)
  else none

/-- What `strptime` reads for a conversion. White space matches any amount of it. -/
def Conversion.read (s : Text) (tt : Tm) : Conversion → Option (Text × Tm)
  | field f => (getNumber f.width f.lo f.hi s).map fun r => (r.2, f.set r.1 tt)
  | char c =>
    if isspace c then some (s.dropWhile isspace, tt)
    else match s with
      | [] => none
      | c' :: s => if c' = c then some (s, tt) else none

/-- The fields are set one after the other, up to the first conversion that does not match. The
other fields, `tm_isdst` among them, stay what they were. -/
def strptime : List Conversion → Text → Tm → Tm
  | [], _, tt => tt
  | c :: conversions, s, tt =>
    match c.read s tt with
    | none => tt
    | some (s, tt) => strptime conversions s tt

/-- The broken-down time of a second of a date. -/
def Tm.ofDateTime (u : DateTime) : Tm :=
  ⟨u.second, u.minute, u.hour, u.date.day + 1, u.date.month, u.date.year - 1900, 0⟩

/-- `gmtime_r`. -/
def gmtime (t : ℤ) : Tm := .ofDateTime (.ofSeconds t)

/-- The time zone of the host. -/
structure TimeZone where
  /-- The seconds by which the zone is ahead of Coordinated Universal Time. -/
  offset : ℤ
  /-- The seconds by which `mktime` takes daylight saving time to be ahead of the zone. -/
  daylight : ℤ

/-- The seconds by which a time is ahead. A positive `tm_isdst` says that daylight saving time is in
effect. -/
def TimeZone.ahead (zone : TimeZone) (tt : Tm) : ℤ :=
  if 0 < tt.tm_isdst then zone.offset + zone.daylight else zone.offset

/-- `mktime`. -/
def mktime (zone : TimeZone) (tt : Tm) : ℤ :=
  let year := tt.tm_year + 1900 + tt.tm_mon / 12
  let month := (tt.tm_mon % 12).toNat
  (yearStart year + ((monthLengths year).take month).sum + (tt.tm_mday - 1) - 719528) * 86400 +
    tt.tm_hour * 3600 + tt.tm_min * 60 + tt.tm_sec - zone.ahead tt

/-! ### The functions of the code -/

def time2str (t : ℤ) : Text := strftime timeFormat (gmtime t)

/-- `tt` is what the memory of the broken-down time holds before it is set. -/
def str2time (zone : TimeZone) (tt : Tm) (str : Text) : ℤ :=
  mktime zone (strptime timeFormat str tt)

/-- The year has at most four digits. -/
def FourDigitYear (u : DateTime) : Prop := 0 ≤ u.date.year ∧ u.date.year ≤ 9999

/-- The string of a time in Coordinated Universal Time. -/
def dateString (u : DateTime) : Text := strftime timeFormat (.ofDateTime u)

/-! ### Conversions -/

private theorem mktime_ofDateTime (zone : TimeZone) (u : DateTime) (tt : Tm) :
    mktime zone { Tm.ofDateTime u with tm_isdst := tt.tm_isdst } =
      u.toSeconds - zone.ahead tt := by
  have hmonth := u.date.month_lt
  have hdiv : (u.date.month : ℤ) / 12 = 0 := by omega
  have hmod : ((u.date.month : ℤ) % 12).toNat = u.date.month := by omega
  rw [mktime, Tm.ofDateTime, TimeZone.ahead, TimeZone.ahead]
  dsimp only
  rw [hdiv, hmod, add_zero, sub_add_cancel, DateTime.toSeconds, Date.toDay]
  omega

/-- The digits of a number. -/
structure Digits (digits : Text) (n width : ℕ) : Prop where
  isDigit : ∀ c ∈ digits, c.isDigit = true
  ne_nil : digits ≠ []
  length_le : digits.length ≤ width
  decimal_eq : decimal digits = n

private theorem digits_decimalText {n width : ℕ} (hpos : 0 < width) (h : n < 10 ^ width) :
    Digits (decimalText n) n width := by
  have hnumber : decimalText n = Nat.toDigits 10 n := by
    rw [decimalText, if_neg (by omega), Int.natAbs_natCast]
  rw [hnumber]
  refine ⟨fun c hc => ?_, Nat.toDigits_ne_nil, ?_, Nat.ofDigitChars_ten_toDigits⟩
  · exact Nat.isDigit_of_mem_toDigits (by decide) (by decide) hc
  · exact (Nat.length_toDigits_le_iff (by decide) hpos).mpr h

private theorem digits_twoDigits {n : ℕ} (h : n < 100) : Digits (twoDigits n) n 2 := by
  rw [twoDigits]
  split_ifs with hsmall
  · have hlt : n < 10 ^ 1 := by omega
    obtain ⟨hdigit, -, hlength, hdecimal⟩ := digits_decimalText Nat.one_pos hlt
    refine ⟨List.forall_mem_cons.mpr ⟨rfl, hdigit⟩, List.cons_ne_nil _ _, ?_, hdecimal⟩
    rw [List.length_cons]
    omega
  · exact digits_decimalText Nat.two_pos h

/-- A number that is printed in front of something else is read. -/
private theorem getNumber_append {digits rest : Text} {n width lo hi : ℕ}
    (h : Digits digits n width) (hlo : lo ≤ n) (hhi : n ≤ hi)
    (hrest : ∀ c ∈ rest.head?, c.isDigit = false) :
    getNumber width lo hi (digits ++ rest) = some (n, rest) := by
  have hnone : rest.takeWhile Char.isDigit = [] := by
    cases rest with
    | nil => rfl
    | cons c rest => exact List.takeWhile_cons_of_neg (by rw [hrest c rfl]; exact nofun)
  have htake : ((digits ++ rest).takeWhile Char.isDigit).take width = digits := by
    rw [List.takeWhile_append_of_pos h.isDigit, hnone, List.append_nil,
      List.take_of_length_le h.length_le]
  rw [getNumber, htake, if_pos ⟨h.ne_nil, by rwa [h.decimal_eq], by rwa [h.decimal_eq]⟩,
    h.decimal_eq, List.drop_left]

/-- The number of a field fits. -/
private theorem digits_print {f : Field} {tt : Tm} (hlo : f.lo ≤ f.get tt) (hhi : f.get tt ≤ f.hi) :
    Digits ((Conversion.field f).print tt) (f.get tt).toNat f.width := by
  have hpos : 0 ≤ f.get tt := le_trans (Int.natCast_nonneg _) hlo
  obtain ⟨n, hn⟩ := Int.eq_ofNat_of_zero_le hpos
  rw [hn] at hhi
  have hhi : n ≤ f.hi := Int.ofNat_le.mp hhi
  cases f with
  | Y =>
    rw [Conversion.print, hn, Int.toNat_natCast]
    exact digits_decimalText (by decide) (Nat.lt_succ_of_le hhi)
  | _ =>
    rw [Conversion.print, hn, Int.toNat_natCast]
    · exact digits_twoDigits (lt_of_le_of_lt hhi (by decide))
    · simp

/-- A field that is printed in front of something else is read. -/
private theorem read_field {f : Field} {tt₀ tt : Tm} {rest : Text} (hlo : f.lo ≤ f.get tt₀)
    (hhi : f.get tt₀ ≤ f.hi) (hrest : ∀ c ∈ rest.head?, c.isDigit = false) :
    (Conversion.field f).read ((Conversion.field f).print tt₀ ++ rest) tt =
      some (rest, f.set (f.get tt₀) tt) := by
  have hpos : 0 ≤ f.get tt₀ := le_trans (Int.natCast_nonneg _) hlo
  rw [Conversion.read, getNumber_append (digits_print hlo hhi) (by omega) (by omega) hrest,
    Option.map_some, Int.toNat_of_nonneg hpos]

private theorem read_char {c : Char} {rest : Text} {tt : Tm} (h : isspace c = false) :
    (Conversion.char c).read (c :: rest) tt = some (rest, tt) := by
  rw [Conversion.read, h, if_neg Bool.false_ne_true]
  exact if_pos rfl

/-- A blank that is printed in front of a number is read. -/
private theorem read_blank {digits rest : Text} {n width : ℕ} {tt : Tm}
    (h : Digits digits n width) :
    (Conversion.char ' ').read (' ' :: (digits ++ rest)) tt = some (digits ++ rest, tt) := by
  obtain ⟨c, cs, rfl⟩ := List.exists_cons_of_ne_nil h.ne_nil
  have hspace := isspace_of_isDigit (h.isDigit c List.mem_cons_self)
  have hdrop : (' ' :: (c :: cs ++ rest)).dropWhile isspace = c :: cs ++ rest := by
    rw [List.dropWhile_cons_of_pos (by decide), List.cons_append,
      List.dropWhile_cons_of_neg (by rw [hspace]; exact nofun)]
  rw [Conversion.read, if_pos (by decide), hdrop]

private theorem strptime_cons {c : Conversion} {conversions : List Conversion} {s s' : Text}
    {tt tt' : Tm} (h : c.read s tt = some (s', tt')) :
    strptime (c :: conversions) s tt = strptime conversions s' tt' := by
  rw [strptime, h]

/-- The fields of a time are in their ranges. -/
private theorem field_mem {u : DateTime} (h : FourDigitYear u) (f : Field) :
    f.lo ≤ f.get (.ofDateTime u) ∧ f.get (.ofDateTime u) ≤ f.hi := by
  have hmonth := u.date.month_lt
  have hday := u.date.day_lt_thirtyOne
  have hhour := u.hour_lt
  have hminute := u.minute_lt
  have hsecond := u.second_lt
  obtain ⟨hlo, hhi⟩ := h
  cases f <;> dsimp only [Field.lo, Field.hi, Field.get, Tm.ofDateTime] <;> omega

/-- What is printed is read, and `tm_isdst` stays. -/
theorem strptime_strftime {u : DateTime} (h : FourDigitYear u) (tt : Tm) :
    strptime timeFormat (dateString u) tt =
      { Tm.ofDateTime u with tm_isdst := tt.tm_isdst } := by
  let text (f : Field) : Text := (Conversion.field f).print (.ofDateTime u)
  have hfield (f : Field) (tt : Tm) (conversions : List Conversion) {rest : Text}
      (hrest : ∀ c ∈ rest.head?, c.isDigit = false) :
      strptime (.field f :: conversions) (text f ++ rest) tt =
        strptime conversions rest (f.set (f.get (.ofDateTime u)) tt) :=
    strptime_cons (read_field (field_mem h f).1 (field_mem h f).2 hrest)
  have hblank (rest : Text) (tt : Tm) (conversions : List Conversion) :
      strptime (.char ' ' :: conversions) (' ' :: (text .H ++ rest)) tt =
        strptime conversions (text .H ++ rest) tt :=
    strptime_cons (read_blank (digits_print (field_mem h .H).1 (field_mem h .H).2))
  have htext : dateString u = text .Y ++ '-' :: (text .m ++ '-' :: (text .d ++ ' ' ::
      (text .H ++ ':' :: (text .M ++ ':' :: (text .S ++ []))))) := rfl
  have hdash (rest : Text) : ∀ c ∈ ('-' :: rest).head?, c.isDigit = false := by simp
  have hspace (rest : Text) : ∀ c ∈ (' ' :: rest).head?, c.isDigit = false := by simp
  have hcolon (rest : Text) : ∀ c ∈ (':' :: rest).head?, c.isDigit = false := by simp
  have hnil : ∀ c ∈ ([] : Text).head?, c.isDigit = false := by simp
  rw [htext, timeFormat, hfield .Y tt _ (hdash _), strptime_cons (read_char rfl),
    hfield .m _ _ (hdash _), strptime_cons (read_char rfl), hfield .d _ _ (hspace _), hblank,
    hfield .H _ _ (hcolon _), strptime_cons (read_char rfl), hfield .M _ _ (hcolon _),
    strptime_cons (read_char rfl), hfield .S _ _ hnil, strptime]
  dsimp only [Field.set, Field.get, Tm.ofDateTime]
  rw [add_sub_cancel_right, add_sub_cancel_right]

/-! ### Round trips -/

/-- The digits in front of a dash determine a number. -/
private theorem decimalText_inj {a b : ℤ} {r r' : Text} (hb : 0 ≤ b)
    (h : decimalText a ++ '-' :: r = decimalText b ++ '-' :: r') : a = b := by
  have hdigit (n : ℕ) : ∀ c ∈ Nat.toDigits 10 n, c.isDigit = true := fun c hc =>
    Nat.isDigit_of_mem_toDigits (by decide) (by decide) hc
  have htake (n : ℕ) (r : Text) :
      (Nat.toDigits 10 n ++ '-' :: r).takeWhile Char.isDigit = Nat.toDigits 10 n := by
    rw [List.takeWhile_append_of_pos (hdigit n), List.takeWhile_cons_of_neg (by decide),
      List.append_nil]
  rw [decimalText, decimalText, if_neg (not_lt.mpr hb)] at h
  split_ifs at h with ha
  · obtain ⟨c, cs, hcs⟩ := List.exists_cons_of_ne_nil (Nat.toDigits_ne_nil (n := b.natAbs) (b := 10))
    have hc := hdigit b.natAbs c (hcs ▸ List.mem_cons_self)
    rw [hcs, List.cons_append, List.cons_append, List.cons.injEq] at h
    rw [← h.1] at hc
    exact absurd hc (by decide)
  · have hdigits := congrArg (List.takeWhile Char.isDigit) h
    rw [htake, htake] at hdigits
    have habs : a.natAbs = b.natAbs := by
      rw [← Nat.ofDigitChars_ten_toDigits (n := a.natAbs), hdigits, Nat.ofDigitChars_ten_toDigits]
    omega

/-- Times with the same string are the same. -/
private theorem eq_of_dateString_eq {u v : DateTime} (hu : FourDigitYear u)
    (h : dateString v = dateString u) : v = u := by
  have hyear : v.date.year = u.date.year := by
    have hnumber : (Tm.ofDateTime v).tm_year + 1900 = (Tm.ofDateTime u).tm_year + 1900 := by
      refine decimalText_inj ?_ h
      have hpos := hu.1
      dsimp only [Tm.ofDateTime]
      omega
    dsimp only [Tm.ofDateTime] at hnumber
    omega
  have hv : FourDigitYear v := by
    rw [FourDigitYear, hyear]
    exact hu
  have htm := strptime_strftime hv (.ofDateTime u)
  rw [h, strptime_strftime hu] at htm
  have hseconds := congrArg (mktime ⟨0, 0⟩) htm
  rw [mktime_ofDateTime, mktime_ofDateTime, sub_left_inj] at hseconds
  rw [← v.ofSeconds_toSeconds, ← hseconds, u.ofSeconds_toSeconds]

/-- **Timestamps survive printing and parsing** if and only if the host takes the time that it reads
for one that is not ahead of Coordinated Universal Time: a time that is printed and read, and a date
that is read and printed. -/
theorem timestamps_survive_iff (zone : TimeZone) (tt : Tm) :
    (∀ t, FourDigitYear (.ofSeconds t) →
      (str2time zone tt (time2str t) = t ↔ zone.ahead tt = 0)) ∧
    ∀ u, FourDigitYear u →
      (time2str (str2time zone tt (dateString u)) = dateString u ↔ zone.ahead tt = 0) := by
  have hread {u : DateTime} (h : FourDigitYear u) :
      str2time zone tt (dateString u) = u.toSeconds - zone.ahead tt := by
    rw [str2time, strptime_strftime h, mktime_ofDateTime]
  refine ⟨fun t ht => ?_, fun u hu => ?_⟩
  · have hprint : time2str t = dateString (.ofSeconds t) := rfl
    rw [hprint, hread ht, DateTime.toSeconds_ofSeconds]
    omega
  · have hprint : time2str (u.toSeconds - zone.ahead tt) =
        dateString (.ofSeconds (u.toSeconds - zone.ahead tt)) := rfl
    rw [hread hu, hprint]
    constructor
    · intro h
      have heq := congrArg DateTime.toSeconds (eq_of_dateString_eq hu h)
      rw [DateTime.toSeconds_ofSeconds] at heq
      omega
    · intro hahead
      rw [hahead, sub_zero, DateTime.ofSeconds_toSeconds]

/-- Memory that holds zeros, but for `tm_isdst`. -/
def blankTm (isdst : ℤ) : Tm := ⟨0, 0, 0, 0, 0, 0, isdst⟩

/-- A date and its time on a host in Coordinated Universal Time, where the memory happens to say that
daylight saving time is not in effect. -/
theorem timestamps_survive_iff_utc :
    str2time ⟨0, 3600⟩ (blankTm 0) (time2str 550758600) = 550758600 ∧
      time2str (str2time ⟨0, 3600⟩ (blankTm 0) (dateString (.ofSeconds 550758600))) =
        dateString (.ofSeconds 550758600) := by
  obtain ⟨htime, hdate⟩ := timestamps_survive_iff ⟨0, 3600⟩ (blankTm 0)
  have hyear : FourDigitYear (.ofSeconds 550758600) := ⟨by decide +kernel, by decide +kernel⟩
  exact ⟨(htime _ hyear).mpr rfl, (hdate _ hyear).mpr rfl⟩

/-- Eight hours ahead the first second of 1970 is read as a time eight hours before it, and at no
offset as one an hour before it where the memory happens to hold a positive `tm_isdst`. -/
theorem timestamps_survive_false_of_offset :
    FourDigitYear (.ofSeconds 0) ∧
      str2time ⟨28800, 3600⟩ (blankTm 0) (time2str 0) = -28800 ∧
      str2time ⟨28800, 3600⟩ (blankTm 0) (time2str 0) ≠ 0 ∧
      str2time ⟨0, 3600⟩ (blankTm 1) (time2str 0) = -3600 ∧
      str2time ⟨0, 3600⟩ (blankTm 1) (time2str 0) ≠ 0 := by
  refine ⟨⟨?_, ?_⟩, ?_, ?_, ?_, ?_⟩ <;> decide +kernel

example : time2str 550758600 = "1987-06-15 12:30:00".toList := by decide +kernel

end Nynn
