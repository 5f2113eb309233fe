import Mathlib.Data.List.Basic
import Mathlib.Data.List.Lex
import Mathlib.Data.Int.Basic
import Mathlib.Data.String.Basic
import Mathlib.Tactic.Common

namespace Hmux.Lib.Civil

/-!
# Calendar dates and their texts

Instants are nanoseconds since the start of 1970, as a system clock reports them.  Their RFC 3339
text in UTC has a fixed width for the years 0 to 9999, so texts are in the order of the instants.

* `fields_lt` — texts of fields with fixed widths are in the order of the fields;
* `ofDay_lt` — dates are in the order of the days;
* `rfc3339_lt` — texts are in the order of the instants, up to the fraction that is written.

Texts are compared character by character, from the left.  The proofs follow the text: a field is a
number with a fixed width, fields come in the order in which the calendar is refined, and every
field is in its range, so that a smaller date has the smaller field at the first place where the
two differ.
-/

/-! ### Fields of fixed width

A number below the power of ten of its width has exactly that many digits, and of two such numbers
the smaller one has the smaller text. -/

/-- The last `width` decimal digits of a number. -/
def fixed : ℕ → ℕ → List Char
  | 0, _ => []
  | width + 1, n => fixed width (n / 10) ++ [Nat.digitChar (n % 10)]

/-- Numbers with fixed widths, each followed by a character. -/
def fields : List (ℕ × Char) → List ℕ → List Char
  | (width, c) :: shape, n :: ns => fixed width n ++ c :: fields shape ns
  | _, _ => []

/-- A number of fixed width has this width. -/
theorem length_fixed (width n : ℕ) : (fixed width n).length = width := by
  induction width generalizing n with
  | zero => rfl
  | succ width ih => rw [fixed, List.length_append, ih, List.length_singleton]

/-- Texts of one length compare by their first parts. -/
theorem append_lt {a b x y : List Char} (hlen : a.length = b.length) (h : a < b) :
    a ++ x < b ++ y := by
  induction a generalizing b with
  | nil =>
    have hb : b = [] := List.eq_nil_of_length_eq_zero hlen.symm
    rw [hb] at h
    exact absurd h (lt_irrefl _)
  | cons c a ih =>
    cases b with
    | nil => cases hlen
    | cons d b =>
      rw [List.cons_append, List.cons_append, List.cons_lt_cons_iff]
      rcases List.cons_lt_cons_iff.mp h with hhead | ⟨rfl, htail⟩
      · exact .inl hhead
      · exact .inr ⟨rfl, ih (Nat.succ.inj hlen) htail⟩

/-- Digits are in the order of their values. -/
theorem digitChar_lt {m n : ℕ} (hn : n < 10) (h : m < n) : Nat.digitChar m < Nat.digitChar n := by
  have hall : ∀ a b : Fin 10, a < b → Nat.digitChar a < Nat.digitChar b := by decide
  exact hall ⟨m, by omega⟩ ⟨n, hn⟩ h

/-- Numbers of one width are in the order of their values. -/
theorem fixed_lt {width m n : ℕ} (hn : n < 10 ^ width) (h : m < n) :
    fixed width m < fixed width n := by
  induction width generalizing m n with
  | zero => rw [Nat.pow_zero] at hn; omega
  | succ width ih =>
    rw [Nat.pow_succ] at hn
    rw [fixed, fixed]
    rcases Nat.lt_or_ge (m / 10) (n / 10) with hdiv | hdiv
    · refine append_lt ?_ (ih (by omega) hdiv)
      rw [length_fixed, length_fixed]
    · have heq : m / 10 = n / 10 := by omega
      rw [heq]
      refine List.append_left_lt (List.cons_lt_cons_iff.mpr (.inl ?_))
      exact digitChar_lt (by omega) (by omega)

/-- **Texts of fields** are in the order of the fields. -/
theorem fields_lt {shape : List (ℕ × Char)} {ms ns : List ℕ} (hlen : ms.length = shape.length)
    (hns : List.Forall₂ (fun s n => n < 10 ^ s.1) shape ns) (h : ms < ns) :
    fields shape ms < fields shape ns := by
  induction hns generalizing ms with
  | nil =>
    rw [List.eq_nil_of_length_eq_zero hlen] at h
    exact absurd h (lt_irrefl _)
  | @cons s n shape ns hn hns ih =>
    obtain ⟨width, c⟩ := s
    cases ms with
    | nil => cases hlen
    | cons m ms =>
      rw [fields, fields]
      rcases List.cons_lt_cons_iff.mp h with hhead | ⟨rfl, htail⟩
      · refine append_lt ?_ (fixed_lt hn hhead)
        rw [length_fixed, length_fixed]
      · have hrest := ih (Nat.succ.inj hlen) htail
        exact List.append_left_lt (List.cons_lt_cons_iff.mpr (.inr ⟨rfl, hrest⟩))

/-! ### Dates

Years start in March here, which puts the leap day at their end: a day is first looked up in a
period of four centuries, then in one of its centuries, in four years and in a year, and only the
last part of each may be longer than the others. -/

/-- A date of the Gregorian calendar, extended to all years. -/
structure Date where
  year : ℤ
  month : ℕ
  day : ℕ
  deriving DecidableEq

/-- The quotient by `c`, at most `k`, and what remains. -/
def capped (c k r : ℤ) : ℤ × ℤ := (min (r / c) k, r - min (r / c) k * c)

/-- Years that start in March, counted from year 0, and the day of such a year.  The leap day is
    the last of its year, so only the last year of a period is longer than the others. -/
def marchYear (z : ℤ) : ℤ × ℤ :=
  let century := capped 36524 3 (z % 146097)
  let four := capped 1461 24 century.2
  let year := capped 365 3 four.2
  (z / 146097 * 400 + century.1 * 100 + four.1 * 4 + year.1, year.2)

/-- The month of a day of such a year, counted from March, and the day of the month. -/
def marchMonth (d : ℤ) : ℤ × ℤ := ((5 * d + 2) / 153, d - (153 * ((5 * d + 2) / 153) + 2) / 5 + 1)

/-- The date of a day, counted from the start of 1970. -/
def ofDay (n : ℤ) : Date :=
  let year := marchYear (n + 719468)
  let month := marchMonth year.2
  if month.1 < 10 then ⟨year.1, (month.1 + 3).toNat, month.2.toNat⟩
  else ⟨year.1 + 1, (month.1 - 9).toNat, month.2.toNat⟩

/-- Capped quotients and what remains are in the order of the numbers. -/
theorem capped_lt {c k r r' : ℤ} (hc : 0 < c) (h : r < r') :
    (capped c k r).1 < (capped c k r').1 ∨
      ((capped c k r).1 = (capped c k r').1 ∧ (capped c k r).2 < (capped c k r').2) := by
  have hdiv : r / c ≤ r' / c := Int.ediv_le_ediv hc (le_of_lt h)
  unfold capped
  dsimp only
  rcases lt_or_eq_of_le (min_le_min_right k hdiv) with hlt | heq
  · exact .inl hlt
  · rw [heq]
    exact .inr ⟨rfl, by omega⟩

/-- What the periods of the calendar are divided into. -/
theorem capped_century {r : ℤ} (h0 : 0 ≤ r) (h1 : r < 146097) :
    0 ≤ (capped 36524 3 r).1 ∧ (capped 36524 3 r).1 ≤ 3 ∧ 0 ≤ (capped 36524 3 r).2 ∧
      (capped 36524 3 r).2 ≤ 36524 := by
  unfold capped
  omega

/-- Four years within a century. -/
theorem capped_four {r : ℤ} (h0 : 0 ≤ r) (h1 : r ≤ 36524) :
    0 ≤ (capped 1461 24 r).1 ∧ (capped 1461 24 r).1 ≤ 24 ∧ 0 ≤ (capped 1461 24 r).2 ∧
      (capped 1461 24 r).2 ≤ 1460 := by
  unfold capped
  omega

/-- A year within four of them. -/
theorem capped_year {r : ℤ} (h0 : 0 ≤ r) (h1 : r ≤ 1460) :
    0 ≤ (capped 365 3 r).1 ∧ (capped 365 3 r).1 ≤ 3 ∧ 0 ≤ (capped 365 3 r).2 ∧
      (capped 365 3 r).2 ≤ 365 := by
  unfold capped
  omega

/-- A year that starts in March has 366 days at most. -/
theorem marchYear_range (z : ℤ) : 0 ≤ (marchYear z).2 ∧ (marchYear z).2 ≤ 365 := by
  obtain ⟨-, -, b0, b1⟩ := capped_century (r := z % 146097) (by omega) (by omega)
  obtain ⟨-, -, c0, c1⟩ := capped_four b0 b1
  exact (capped_year c0 c1).2.2

/-- Years and their days are in the order of the days. -/
theorem marchYear_lt {z z' : ℤ} (h : z < z') :
    (marchYear z).1 < (marchYear z').1 ∨
      ((marchYear z).1 = (marchYear z').1 ∧ (marchYear z).2 < (marchYear z').2) := by
  obtain ⟨b0, b1, b2, b3⟩ := capped_century (r := z % 146097) (by omega) (by omega)
  obtain ⟨b0', b1', b2', b3'⟩ := capped_century (r := z' % 146097) (by omega) (by omega)
  obtain ⟨c0, c1, c2, c3⟩ := capped_four b2 b3
  obtain ⟨c0', c1', c2', c3'⟩ := capped_four b2' b3'
  obtain ⟨d0, d1, -, -⟩ := capped_year c2 c3
  obtain ⟨d0', d1', -, -⟩ := capped_year c2' c3'
  -- the quotients are compared one after the other, from the longest period to the shortest
  have hfirst : z / 146097 < z' / 146097 ∨
      (z / 146097 = z' / 146097 ∧ z % 146097 < z' % 146097) := by omega
  unfold marchYear
  dsimp only
  rcases hfirst with hlt | ⟨hera, hlt⟩
  · left; omega
  · rcases capped_lt (k := 3) (show (0 : ℤ) < 36524 by decide) hlt with hlt | ⟨hcentury, hlt⟩
    · left; omega
    · rcases capped_lt (k := 24) (show (0 : ℤ) < 1461 by decide) hlt with hlt | ⟨hfour, hlt⟩
      · left; omega
      · rcases capped_lt (k := 3) (show (0 : ℤ) < 365 by decide) hlt with hlt | ⟨hyear, hlt⟩
        · left; omega
        · right; exact ⟨by omega, hlt⟩

/-- A month of such a year has 31 days at most. -/
theorem marchMonth_range {d : ℤ} (h0 : 0 ≤ d) (h1 : d ≤ 365) :
    0 ≤ (marchMonth d).1 ∧ (marchMonth d).1 ≤ 11 ∧ 1 ≤ (marchMonth d).2 ∧
      (marchMonth d).2 ≤ 31 := by
  unfold marchMonth
  dsimp only
  omega

/-- Months and days are in the order of the days of the year. -/
theorem marchMonth_lt {d d' : ℤ} (h : d < d') :
    (marchMonth d).1 < (marchMonth d').1 ∨
      ((marchMonth d).1 = (marchMonth d').1 ∧ (marchMonth d).2 < (marchMonth d').2) := by
  unfold marchMonth
  dsimp only
  omega

/-- The month and the day of the month have two digits. -/
theorem ofDay_range (n : ℤ) : 1 ≤ (ofDay n).month ∧ (ofDay n).month ≤ 12 ∧
    1 ≤ (ofDay n).day ∧ (ofDay n).day ≤ 31 := by
  obtain ⟨h0, h1⟩ := marchYear_range (n + 719468)
  obtain ⟨m0, m1, d0, d1⟩ := marchMonth_range h0 h1
  unfold ofDay
  dsimp only
  split
  · dsimp only; omega
  · dsimp only; omega

/-- **Dates are in the order of the days.** -/
theorem ofDay_lt {n n' : ℤ} (h : n < n') :
    (ofDay n).year < (ofDay n').year ∨ ((ofDay n).year = (ofDay n').year ∧
      ((ofDay n).month < (ofDay n').month ∨
        ((ofDay n).month = (ofDay n').month ∧ (ofDay n).day < (ofDay n').day))) := by
  have hyear := marchYear_lt (show n + 719468 < n' + 719468 by omega)
  obtain ⟨h0, h1⟩ := marchYear_range (n + 719468)
  obtain ⟨h0', h1'⟩ := marchYear_range (n' + 719468)
  obtain ⟨m0, m1, d0, d1⟩ := marchMonth_range h0 h1
  obtain ⟨m0', m1', d0', d1'⟩ := marchMonth_range h0' h1'
  have hmonth : (marchYear (n + 719468)).2 < (marchYear (n' + 719468)).2 → _ := marchMonth_lt
  unfold ofDay
  dsimp only
  split <;> split <;> dsimp only <;> omega

/-! ### Texts

The text has the date, the second of the day and a fraction of so many digits, and it is in UTC.  A
year outside 0 to 9999 is written with a sign and breaks the width, which is why the order of the
texts is stated for the other years only. -/

/-- Nanoseconds of a day. -/
def nanosPerDay : ℤ := 86400 * 1000000000

/-- The date of an instant. -/
def date (n : ℤ) : Date := ofDay (n / nanosPerDay)

/-- The second of the day. -/
def second (n : ℤ) : ℕ := (n % nanosPerDay / 1000000000).toNat

/-- A year with four digits, or with a sign when they are not enough. -/
def yearText (y : ℤ) : List Char :=
  if 0 ≤ y ∧ y ≤ 9999 then fixed 4 y.toNat
  else (if y < 0 then '-' else '+') :: List.leftpad 4 '0' (Nat.toDigits 10 y.natAbs)

/-- The nanoseconds that the last of `digits` digits of a fraction stands for. -/
def unit (digits : ℕ) : ℕ := 10 ^ (9 - digits)

/-- What is written after the year: month, day, hour, minute, second and fraction. -/
def timeFields (digits : ℕ) (n : ℤ) : List ℕ :=
  [(date n).month, (date n).day, second n / 3600, second n / 60 % 60, second n % 60,
    (n % 1000000000).toNat / unit digits]

/-- How it is written. -/
def timeShape (digits : ℕ) : List (ℕ × Char) :=
  [(2, '-'), (2, 'T'), (2, ':'), (2, ':'), (2, '.'), (digits, 'Z')]

/-- `to_rfc3339_opts` in UTC, with a fraction of so many digits. -/
def rfc3339 (digits : ℕ) (n : ℤ) : String :=
  String.ofList (yearText (date n).year ++ '-' :: fields (timeShape digits) (timeFields digits n))

/-- The year of an instant is one of 0 to 9999. -/
def FourDigitYear (n : ℤ) : Prop := 0 ≤ (date n).year ∧ (date n).year ≤ 9999

variable {digits : ℕ} {m n : ℤ}

/-- Three digits are milliseconds. -/
theorem unit_millis : unit 3 = 1000000 := rfl

/-- Nine digits are nanoseconds. -/
theorem unit_nanos : unit 9 = 1 := rfl

/-- The text is that of its fields. -/
theorem rfc3339_eq (h : FourDigitYear n) : (rfc3339 digits n).toList
    = fields ((4, '-') :: timeShape digits) ((date n).year.toNat :: timeFields digits n) := by
  have hyear : yearText (date n).year = fixed 4 (date n).year.toNat := if_pos h
  unfold rfc3339
  rw [hyear, String.toList_ofList, fields]

/-- The text of an instant is as long as its shape says. -/
theorem length_rfc3339 (h : FourDigitYear n) :
    (rfc3339 digits n).toList.length = digits + 21 := by
  rw [rfc3339_eq h]
  simp only [timeShape, timeFields, fields, List.length_append, length_fixed, List.length_cons,
    List.length_nil]
  omega

/-- An earlier day has an earlier date. -/
theorem date_lt (h : m / nanosPerDay < n / nanosPerDay) (hm : FourDigitYear m) :
    (date m).year.toNat < (date n).year.toNat ∨ ((date m).year.toNat = (date n).year.toNat ∧
      ((date m).month < (date n).month ∨
        ((date m).month = (date n).month ∧ (date m).day < (date n).day))) := by
  have hlt := ofDay_lt h
  have h0 := hm.1
  unfold date at h0 ⊢
  omega

/-- **Texts are in the order of the instants**, as far as the fraction is written. -/
theorem rfc3339_lt (hdigits : digits = 3 ∨ digits = 9) (hm : FourDigitYear m)
    (hn : FourDigitYear n) (h : m / unit digits < n / unit digits) :
    rfc3339 digits m < rfc3339 digits n := by
  rw [String.lt_iff_toList_lt, rfc3339_eq hm, rfc3339_eq hn]
  -- the fields have a fixed width, so the texts are ordered as the fields are
  refine fields_lt rfl ?_ ?_
  · obtain ⟨-, hmonth, -, hday⟩ := ofDay_range (n / nanosPerDay)
    have hyear := hn.2
    have hsecond : second n < 86400 := by
      unfold second nanosPerDay
      omega
    have hfraction : (n % 1000000000).toNat / unit digits < 10 ^ digits := by
      rcases hdigits with rfl | rfl
      · rw [unit_millis]; omega
      · rw [unit_nanos]; omega
    unfold timeShape timeFields
    simp only [List.forall₂_cons]
    refine ⟨?_, ?_, ?_, ?_, ?_, ?_, hfraction, .nil⟩
    · omega
    · unfold date; omega
    · unfold date; omega
    · omega
    · omega
    · omega
  · unfold timeFields
    simp only [List.cons_lt_cons_iff, List.not_lt_nil, and_false, or_false]
    -- an earlier day has an earlier date
    by_cases hdays : m / nanosPerDay < n / nanosPerDay
    · have hdate := date_lt hdays hm
      omega
    · -- on one day the second decides, or the fraction of the same second
      have hsame : m / nanosPerDay = n / nanosPerDay ∧ (second m < second n ∨
          (second m = second n ∧ (m % 1000000000).toNat / unit digits
            < (n % 1000000000).toNat / unit digits)) := by
        unfold second nanosPerDay at *
        rcases hdigits with rfl | rfl
        · rw [unit_millis] at h ⊢; omega
        · rw [unit_nanos] at h ⊢; omega
      have hdate : date m = date n := by
        unfold date
        rw [hsame.1]
      rw [hdate]
      omega

/-- Instants that differ in what is not written have one text. -/
theorem rfc3339_congr (hdigits : digits = 3 ∨ digits = 9) (h : m / unit digits = n / unit digits) :
    rfc3339 digits m = rfc3339 digits n := by
  have hsame : m / nanosPerDay = n / nanosPerDay ∧ second m = second n ∧
      (m % 1000000000).toNat / unit digits = (n % 1000000000).toNat / unit digits := by
    unfold second nanosPerDay
    rcases hdigits with rfl | rfl
    · rw [unit_millis] at h ⊢; omega
    · rw [unit_nanos] at h ⊢; omega
  unfold rfc3339 timeFields date
  rw [hsame.1, hsame.2.1, hsame.2.2]

/-- **Texts compare as the instants do.** -/
theorem rfc3339_lt_iff (hdigits : digits = 3 ∨ digits = 9) (hm : FourDigitYear m)
    (hn : FourDigitYear n) :
    rfc3339 digits m < rfc3339 digits n ↔ m / unit digits < n / unit digits := by
  refine ⟨fun h => ?_, rfc3339_lt hdigits hm hn⟩
  rcases lt_trichotomy (m / (unit digits : ℤ)) (n / unit digits) with hlt | heq | hgt
  · exact hlt
  · rw [rfc3339_congr hdigits heq] at h
    exact absurd h (lt_irrefl _)
  · exact absurd h (lt_asymm (rfc3339_lt hdigits hn hm hgt))

/-- A text stands for one instant, as far as the fraction is written. -/
theorem rfc3339_inj (hdigits : digits = 3 ∨ digits = 9) (hm : FourDigitYear m)
    (hn : FourDigitYear n) (h : rfc3339 digits m = rfc3339 digits n) :
    m / unit digits = n / unit digits := by
  rcases lt_trichotomy (m / (unit digits : ℤ)) (n / unit digits) with hlt | heq | hgt
  · exact absurd h (rfc3339_lt hdigits hm hn hlt).ne
  · exact heq
  · exact absurd h (rfc3339_lt hdigits hn hm hgt).ne'

/-- A later date is not in an earlier year. -/
theorem date_year_le (h : m ≤ n) : (date m).year ≤ (date n).year := by
  have hdiv : m / nanosPerDay ≤ n / nanosPerDay :=
    Int.ediv_le_ediv (show (0 : ℤ) < nanosPerDay by decide) h
  rcases lt_or_eq_of_le hdiv with hlt | heq
  · have hdate := ofDay_lt hlt
    unfold date
    omega
  · unfold date
    rw [heq]

/-- The text of an instant after the year 9999 starts with a sign, which comes before a digit. -/
theorem rfc3339_large (hm : FourDigitYear m) (hn : 9999 < (date n).year) :
    rfc3339 digits n < rfc3339 digits m := by
  have hlarge : ¬(0 ≤ (date n).year ∧ (date n).year ≤ 9999) := by omega
  have hpos : ¬(date n).year < 0 := by omega
  have hdigit : ∀ k < 10, '+' < Nat.digitChar k := by decide
  rw [String.lt_iff_toList_lt, rfc3339_eq hm]
  unfold rfc3339 yearText
  rw [String.toList_ofList, if_neg hlarge, if_neg hpos, List.cons_append, fields]
  show _ < Nat.digitChar ((date m).year.toNat / 10 / 10 / 10 % 10) :: _
  rw [List.cons_lt_cons_iff]
  exact .inl (hdigit _ (Nat.mod_lt _ (by decide)))

/-! ### Clocks

What a clock can report at all, and the shortest text that still says it. -/

/-- What a `DateTime<Utc>` can be, in nanoseconds: the years -262143 to 262142. -/
structure Instant where
  nanos : ℤ
  min_le : -8334601228800000000000 ≤ nanos
  le_max : nanos ≤ 8210266876799999999999

namespace Instant

/-- `timestamp`. -/
def timestamp (t : Instant) : Int64 := Int64.ofInt (t.nanos / 1000000000)

/-- `to_rfc3339_opts` with `SecondsFormat::AutoSi`: no fraction, or one of three, six or nine
    digits. -/
def autoSi (t : Instant) : String :=
  if t.nanos % 1000000000 = 0 then
    String.ofList (yearText (date t.nanos).year ++ '-' :: fields
      [(2, '-'), (2, 'T'), (2, ':'), (2, ':'), (2, 'Z')] ((timeFields 0 t.nanos).take 5))
  else if t.nanos % 1000000 = 0 then rfc3339 3 t.nanos
  else if t.nanos % 1000 = 0 then rfc3339 6 t.nanos
  else rfc3339 9 t.nanos

/-- A timestamp counts whole seconds. -/
theorem toInt_timestamp (t : Instant) : t.timestamp.toInt = t.nanos / 1000000000 := by
  have hmin := t.min_le
  have hmax := t.le_max
  have hsize : (Int64.size : ℤ) = 2 ^ 64 := rfl
  unfold timestamp
  rw [Int64.toInt_ofInt]
  exact Int.bmod_eq_of_le (by rw [show ((Int64.size : ℕ) : ℤ) = 2 ^ 64 from hsize]; omega)
    (by rw [show ((Int64.size : ℕ) : ℤ) = 2 ^ 64 from hsize]; omega)

/-- A year is written with seven characters at most. -/
theorem length_yearText (t : Instant) : (yearText (date t.nanos).year).length ≤ 7 := by
  have hlow : (date (-8334601228800000000000)).year ≤ (date t.nanos).year := date_year_le t.min_le
  have hhigh : (date t.nanos).year ≤ (date 8210266876799999999999).year := date_year_le t.le_max
  have hfirst : (date (-8334601228800000000000)).year = -262143 := by decide
  have hlast : (date 8210266876799999999999).year = 262142 := by decide
  rw [hfirst] at hlow
  rw [hlast] at hhigh
  unfold yearText
  split
  · rw [length_fixed]
    omega
  · have hdigits : (Nat.toDigits 10 (date t.nanos).year.natAbs).length ≤ 6 :=
      (Nat.length_toDigits_le_iff (by omega) (by omega)).mpr (by omega)
    rw [List.length_cons, List.length_leftpad]
    omega

/-- The text of an instant is short. -/
theorem length_autoSi (t : Instant) : t.autoSi.toList.length ≤ 33 := by
  have hyear := t.length_yearText
  have hfraction : ∀ digits ≤ 9, (rfc3339 digits t.nanos).toList.length ≤ 33 := by
    intro digits hdigits
    unfold rfc3339
    rw [String.toList_ofList]
    simp only [timeShape, timeFields, fields, List.length_append, length_fixed, List.length_cons,
      List.length_nil]
    omega
  unfold autoSi
  split
  · rw [String.toList_ofList]
    simp only [timeFields, fields, List.take, List.length_append, length_fixed, List.length_cons,
      List.length_nil]
    omega
  · split
    · exact hfraction 3 (by omega)
    · split
      · exact hfraction 6 (by omega)
      · exact hfraction 9 (by omega)

end Instant

end Hmux.Lib.Civil
