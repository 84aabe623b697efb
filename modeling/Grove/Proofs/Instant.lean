import Grove.Instant
import Grove.Proofs.Text.Fixed

/-!
# The text of an instant

A day is found from its number by taking off whole centuries, years and months, beginning in
March, so that the day of a leap year is the last one (`civil_spec`). The text of an instant is
that day, the time and no distance of the local clock, and it is read back, whatever the year
(`readLong?_text`, `read?_text`).
-/

namespace Grove.Instant

/-! ## The calendar -/

/-- A year beside which all years with as many days can be put. -/
def sampleYear (leap : Bool) : Int := if leap then 4 else 1

theorem isLeapYear_sampleYear (leap : Bool) : isLeapYear (sampleYear leap) = leap := by
  cases leap <;> decide

theorem daysInMonth_eq (year : Int) (month : Nat) :
    daysInMonth year month = daysInMonth (sampleYear (isLeapYear year)) month := by
  simp only [daysInMonth, isLeapYear_sampleYear]

theorem daysBeforeMonth_eq (year : Int) (month : Nat) :
    daysBeforeMonth year month = daysBeforeMonth (sampleYear (isLeapYear year)) month := by
  have hstep : (fun (days i : Nat) => days + daysInMonth year (i + 1)) =
      fun days i => days + daysInMonth (sampleYear (isLeapYear year)) (i + 1) := by
    funext days i
    rw [daysInMonth_eq]
  rw [daysBeforeMonth, hstep, ← daysBeforeMonth]

/-- The leap years from some year on are counted by the multiples of 4, 100 and 400. -/
theorem daysBeforeYear_succ (year : Int) :
    daysBeforeYear (year + 1) = daysBeforeYear year + 365 + (if isLeapYear year then 1 else 0) := by
  have hleap : isLeapYear year = true ↔
      year % 4 = 0 ∧ (year % 100 ≠ 0 ∨ year % 400 = 0) := by
    simp [isLeapYear]
  split
  · next h =>
      rw [hleap] at h
      simp only [daysBeforeYear]
      omega
  · next h =>
      rw [hleap] at h
      simp only [daysBeforeYear]
      omega

/-- The days of four centuries that come before the year, where a year starts in March. -/
def daysBeforeYearOfEra (y : Nat) : Nat := 365 * y + y / 4 - y / 100

theorem daysBeforeYear_era (era : Int) {y : Nat} (h : y < 400) :
    daysBeforeYear (era * 400 + y + 1) = era * 146097 + daysBeforeYearOfEra y := by
  simp only [daysBeforeYear, daysBeforeYearOfEra]
  omega

def yearOfEra (d : Nat) : Nat := (d - d / 1460 + d / 36524 - d / 146096) / 365

/-- A day of four centuries is a century, a group of four years, a year and a day of it, where
the last day of a year is beyond the others only at the end of a group, and of the last group
only at the end of the last century. -/
theorem exists_parts {d : Nat} (h : d < 146097) :
    ∃ c q s r, d = 36524 * c + (1461 * q + (365 * s + r)) ∧ c < 4 ∧ q < 25 ∧ s < 4 ∧ r < 366 ∧
      (r = 365 → s = 3 ∧ (q = 24 → c = 3)) := by
  obtain ⟨c, b, hc, hd, hb, hlast⟩ :
      ∃ c b, c < 4 ∧ d = 36524 * c + b ∧ b < 36525 ∧ (b = 36524 → c = 3) :=
    ⟨min (d / 36524) 3, d - 36524 * min (d / 36524) 3, by omega, by omega, by omega, by omega⟩
  obtain ⟨q, a, hq, hb', ha⟩ : ∃ q a, q < 25 ∧ b = 1461 * q + a ∧ a < 1461 :=
    ⟨b / 1461, b % 1461, by omega, by omega, by omega⟩
  obtain ⟨s, r, hs, ha', hr, hend⟩ :
      ∃ s r, s < 4 ∧ a = 365 * s + r ∧ r < 366 ∧ (r = 365 → s = 3) :=
    ⟨min (a / 365) 3, a - 365 * min (a / 365) 3, by omega, by omega, by omega, by omega⟩
  exact ⟨c, q, s, r, by omega, hc, hq, hs, hr, fun h => ⟨hend h, fun h' => hlast (by omega)⟩⟩

theorem yearOfEra_parts {c q s r : Nat} (hc : c < 4) (hq : q < 25) (hs : s < 4) (hr : r < 366)
    (hlast : r = 365 → s = 3 ∧ (q = 24 → c = 3)) :
    yearOfEra (36524 * c + (1461 * q + (365 * s + r))) = 100 * c + 4 * q + s := by
  by_cases hend : q = 24 ∧ s = 3 ∧ r = 365
  · -- the last day of all
    obtain ⟨rfl, rfl, rfl⟩ := hend
    rw [(hlast rfl).2 rfl]
    decide
  · have hcentury : 1461 * q + (365 * s + r) < 36524 := by omega
    have hcenturies : (36524 * c + (1461 * q + (365 * s + r))) / 36524 = c := by
      rw [Nat.mul_add_div (by decide), Nat.div_eq_of_lt hcentury, Nat.add_zero]
    have heras : (36524 * c + (1461 * q + (365 * s + r))) / 146096 = 0 :=
      Nat.div_eq_of_lt (by omega)
    have hgroups : (36524 * c + (1461 * q + (365 * s + r))) / 1460 =
        25 * c + q + (24 * c + q + 365 * s + r) / 1460 := by
      rw [← Nat.mul_add_div (by decide)]
      congr 1
      omega
    -- a day too many in a group is taken off from the last day of its last year
    obtain ⟨hfirst, hlater⟩ : (24 * c + q + 365 * s + r) / 1460 ≤ r ∧
        r < 365 + (24 * c + q + 365 * s + r) / 1460 := by omega
    rw [yearOfEra, hcenturies, heras, hgroups]
    omega

/-- The day is one of the year that it is said to be in, which has as many. -/
theorem yearOfEra_spec {d : Nat} (h : d < 146097) :
    yearOfEra d < 400 ∧ ∃ r < 366, d = daysBeforeYearOfEra (yearOfEra d) + r ∧
      (r = 365 → ∀ era : Int, isLeapYear (era * 400 + yearOfEra d + 1) = true) := by
  obtain ⟨c, q, s, r, hd, hc, hq, hs, hr, hlast⟩ := exists_parts h
  have hyear : yearOfEra d = 100 * c + 4 * q + s := hd ▸ yearOfEra_parts hc hq hs hr hlast
  refine ⟨by omega, r, hr, ?_, fun hend era => ?_⟩
  · have hfours : (100 * c + 4 * q + s) / 4 = 25 * c + q := by omega
    have hcenturies : (100 * c + 4 * q + s) / 100 = c := by omega
    rw [hyear, daysBeforeYearOfEra, hfours, hcenturies]
    omega
  · obtain ⟨rfl, hcentury⟩ := hlast hend
    simp only [isLeapYear, hyear, Bool.and_eq_true, Bool.or_eq_true, decide_eq_true_eq]
    omega

/-- The month of a day of a year that starts in March. -/
def monthOfYear (r : Nat) : Nat :=
  if (5 * r + 2) / 153 < 10 then (5 * r + 2) / 153 + 3 else (5 * r + 2) / 153 - 9

def dayOfMonth (r : Nat) : Nat := r - (153 * ((5 * r + 2) / 153) + 2) / 5 + 1

/-- From March on, the days of the year before are those of January and February. In these two,
the year has begun 306 days after the first of March. -/
theorem monthOfYear_spec {r : Nat} (h : r < 366) :
    1 ≤ dayOfMonth r ∧ 1 ≤ monthOfYear r ∧ monthOfYear r ≤ 12 ∧
    ∀ leap : Bool, (r = 365 → monthOfYear r ≤ 2 → leap = true) →
      dayOfMonth r ≤ daysInMonth (sampleYear leap) (monthOfYear r) ∧
      daysBeforeMonth (sampleYear leap) (monthOfYear r) + dayOfMonth r +
        (if monthOfYear r ≤ 2 then 305 else 0) =
          r + (if monthOfYear r ≤ 2 then 0 else 60 + if leap then 1 else 0) := by
  have hall : ∀ r : Fin 366, 1 ≤ dayOfMonth r ∧ 1 ≤ monthOfYear r ∧ monthOfYear r ≤ 12 ∧
      ∀ leap : Bool, (r.val = 365 → monthOfYear r ≤ 2 → leap = true) →
        dayOfMonth r ≤ daysInMonth (sampleYear leap) (monthOfYear r) ∧
        daysBeforeMonth (sampleYear leap) (monthOfYear r) + dayOfMonth r +
          (if monthOfYear r ≤ 2 then 305 else 0) =
            r + (if monthOfYear r ≤ 2 then 0 else 60 + if leap then 1 else 0) := by
    decide +kernel
  exact hall ⟨r, h⟩

/-- The days from the first of March of the year 0, where four centuries begin. -/
def fromMarch (days : Int) : Int := days + daysTo 2000 1 1 - daysTo 0 3 1

theorem fromMarch_eq (days : Int) : fromMarch days = days + 730425 := by
  have hstart : daysTo 2000 1 1 = 0 := by decide
  have hmarch : daysTo 0 3 1 = -730425 := by decide
  rw [fromMarch, hstart, hmarch]
  omega

theorem civil_eq (days : Int) :
    let d := (fromMarch days % 146097).toNat
    let r := d - daysBeforeYearOfEra (yearOfEra d)
    civil days = (fromMarch days / 146097 * 400 + yearOfEra d +
      (if monthOfYear r ≤ 2 then 1 else 0), monthOfYear r, dayOfMonth r) := rfl

/-- A day is the one of its year, month and day of the month. -/
theorem civil_spec {days year : Int} {month day : Nat} (h : civil days = (year, month, day)) :
    (1 ≤ month ∧ month ≤ 12 ∧ 1 ≤ day ∧ day ≤ daysInMonth year month) ∧
      daysTo year month day = days := by
  have hera := Int.mul_ediv_add_emod (fromMarch days) 146097
  have hpositive := Int.emod_nonneg (fromMarch days) (by decide : (146097 : Int) ≠ 0)
  have hfew := Int.emod_lt_of_pos (fromMarch days) (by decide : (0 : Int) < 146097)
  obtain ⟨hyear, r, hr, hd, hlast⟩ :=
    yearOfEra_spec (d := (fromMarch days % 146097).toNat) (by omega)
  have hrest : (fromMarch days % 146097).toNat -
      daysBeforeYearOfEra (yearOfEra (fromMarch days % 146097).toNat) = r := by omega
  simp only [civil_eq, hrest, Prod.mk.injEq] at h
  rw [fromMarch_eq] at *
  generalize (days + 730425) / 146097 = era at *
  generalize hd' : ((days + 730425) % 146097).toNat = d at *
  obtain ⟨hyearEq, rfl, rfl⟩ := h
  obtain ⟨hday, hmonth, hmonths, hspec⟩ := monthOfYear_spec hr
  have hstart : daysBeforeYear 2000 = 730119 := by decide
  have hbefore := daysBeforeYear_era era hyear
  by_cases hearly : monthOfYear r ≤ 2
  · rw [if_pos hearly] at hyearEq
    obtain ⟨hlength, hdays⟩ := hspec (isLeapYear year) fun h _ => hyearEq ▸ hlast h era
    rw [← daysInMonth_eq] at hlength
    rw [← daysBeforeMonth_eq, if_pos hearly, if_pos hearly] at hdays
    rw [hyearEq] at hbefore
    refine ⟨⟨hmonth, hmonths, hday, hlength⟩, ?_⟩
    rw [daysTo, hbefore, hstart]
    omega
  · rw [if_neg hearly, Int.add_zero] at hyearEq
    obtain ⟨hlength, hdays⟩ := hspec (isLeapYear year) fun _ h => absurd h hearly
    rw [← daysInMonth_eq] at hlength
    rw [← daysBeforeMonth_eq, if_neg hearly, if_neg hearly] at hdays
    rw [hyearEq, daysBeforeYear_succ] at hbefore
    refine ⟨⟨hmonth, hmonths, hday, hlength⟩, ?_⟩
    rw [daysTo, hstart]
    cases hleap : isLeapYear year
    all_goals
      simp only [hleap, if_true, Bool.false_eq_true, if_false] at hdays hbefore
      omega

/-! ## Reading -/

def readInYear? (year : Int) (cs : List Char) : Option Instant := do
  let cs ← takeChar '-' cs
  let (month, cs) ← takeDigits 2 cs
  let cs ← takeChar '-' cs
  let (day, cs) ← takeDigits 2 cs
  let cs ← takeChar 'T' cs <|> takeChar 't' cs <|> takeChar ' ' cs
  let (hour, cs) ← takeDigits 2 cs
  let cs ← takeChar ':' cs
  let (minute, cs) ← takeDigits 2 cs
  let cs ← takeChar ':' cs
  let (second, cs) ← takeDigits 2 cs
  let (fraction, cs) ← takeFraction cs
  let (offset, cs) ← takeOffset cs
  if !cs.isEmpty then none
  if month < 1 || 12 < month || day < 1 || daysInMonth year month < day then none
  if 23 < hour || 59 < minute || 60 < second then none
  let seconds := daysTo year month day * 86400 + hour * 3600 + minute * 60 + second - offset
  some ⟨seconds * 1000000000 + fraction⟩

theorem read?_eq (s : String) :
    read? s = (takeDigits 4 s.toList).bind fun y => readInYear? y.1 y.2 := rfl

/-- Reads an instant whose year has at least four digits, and a sign if there are more of them or
the year is before the year 0. -/
def readLong? (s : String) : Option Instant :=
  match s.toList with
  | '-' :: cs => signed true cs
  | '+' :: cs => signed false cs
  | cs => (takeDigits 4 cs).bind fun y => readInYear? y.1 y.2
where
  signed (negative : Bool) (cs : List Char) : Option Instant :=
    let ds := cs.takeWhile Char.isDigit
    if ds.length < 4 then none
    else (Text.readDigits? ds).bind fun n =>
      readInYear? (if negative then -n else n) (cs.dropWhile Char.isDigit)

theorem takeDigits_decimalFixed {width n : Nat} (hwidth : 0 < width) (h : n < 10 ^ width)
    (rest : List Char) :
    takeDigits width (Text.decimalFixed width n ++ rest) = some (n, rest) := by
  have hlength := Text.length_decimalFixed width n
  have htake : (Text.decimalFixed width n ++ rest).take width = Text.decimalFixed width n :=
    List.take_left' hlength
  have hdrop : (Text.decimalFixed width n ++ rest).drop width = rest := List.drop_left' hlength
  simp only [takeDigits, htake, hdrop, hlength, Nat.lt_irrefl, if_false,
    Text.readDigits?_decimalFixed hwidth h]
  rfl

/-- A fraction is one to nine digits of a second, or there is none. -/
theorem fractionText_spec {n : Nat} (h : n < 1000000000) :
    (n = 0 ∧ fractionText n = "") ∨ ∃ width m, 0 < width ∧ width ≤ 9 ∧ m < 10 ^ width ∧
      m * tenTo (9 - width) = n ∧
      fractionText n = "." ++ String.ofList (Text.decimalFixed width m) := by
  rw [fractionText]
  split
  · next hzero => exact .inl ⟨hzero, rfl⟩
  · right
    split
    · next hmillis =>
        exact ⟨3, n / 1000000, by decide, by decide, by omega,
          Nat.div_mul_cancel (Nat.dvd_of_mod_eq_zero hmillis), rfl⟩
    · split
      · next hmicros =>
          exact ⟨6, n / 1000, by decide, by decide, by omega,
            Nat.div_mul_cancel (Nat.dvd_of_mod_eq_zero hmicros), rfl⟩
      · exact ⟨9, n, by decide, by decide, h, Nat.mul_one n, rfl⟩

/-- The distance of a clock that shows universal time. -/
def noOffset : List Char := "+00:00".toList

theorem takeFraction_fractionText {n : Nat} (h : n < 1000000000) :
    takeFraction ((fractionText n).toList ++ noOffset) = some (n, noOffset) := by
  rcases fractionText_spec h with ⟨rfl, htext⟩ | ⟨width, m, hwidth, hnine, hm, rfl, htext⟩
  · rw [htext]
    rfl
  · have hlength := Text.length_decimalFixed width m
    have hdigits : ∀ c ∈ Text.decimalFixed width m, c.isDigit = true :=
      fun _ => Text.isDigit_of_mem_decimalFixed
    have htake : (Text.decimalFixed width m ++ noOffset).takeWhile Char.isDigit =
        Text.decimalFixed width m := by
      rw [List.takeWhile_append_of_pos hdigits]
      exact List.append_nil _
    have hdrop : (Text.decimalFixed width m ++ noOffset).dropWhile Char.isDigit = noOffset := by
      rw [List.dropWhile_append_of_pos hdigits]
      rfl
    have hsome : (Text.decimalFixed width m).isEmpty = false := by
      rw [List.isEmpty_eq_false_iff, ← List.length_pos_iff, hlength]
      exact hwidth
    have hkept : (Text.decimalFixed width m).take 9 = Text.decimalFixed width m :=
      List.take_of_length_le (Nat.le_trans (Nat.le_of_eq hlength) hnine)
    have hpoint : (fractionText (m * tenTo (9 - width))).toList ++ noOffset =
        '.' :: (Text.decimalFixed width m ++ noOffset) := by
      simp [htext]
    rw [hpoint]
    simp only [takeFraction, htake, hdrop, hsome, hkept, hlength, Text.digitsValue_decimalFixed hm,
      Bool.false_eq_true, if_false]

/-- The characters behind the year. -/
theorem toList_text (t : Instant) {year : Int} {month day : Nat}
    (h : civil (t.nanoseconds / 1000000000 / 86400) = (year, month, day)) :
    let ofDay := (t.nanoseconds / 1000000000 % 86400).toNat
    let two := Text.decimalFixed 2
    t.text.toList = (yearText year).toList ++ '-' :: (two month ++ '-' :: (two day ++
      'T' :: (two (ofDay / 3600) ++ ':' :: (two (ofDay / 60 % 60) ++ ':' :: (two (ofDay % 60) ++
        ((fractionText (t.nanoseconds % 1000000000).toNat).toList ++ noOffset)))))) := by
  simp only [text, h, String.toList_append, String.toList_ofList, List.append_assoc, noOffset,
    show "-".toList = ['-'] from rfl, show "T".toList = ['T'] from rfl,
    show ":".toList = [':'] from rfl, List.cons_append, List.nil_append]

theorem readInYear?_written {year : Int} {month day hour minute second fraction : Nat}
    (hmonth : 1 ≤ month ∧ month ≤ 12) (hday : 1 ≤ day ∧ day ≤ daysInMonth year month)
    (hhour : hour < 24) (hminute : minute < 60) (hsecond : second < 60)
    (hfraction : fraction < 1000000000) :
    let two := Text.decimalFixed 2
    readInYear? year ('-' :: (two month ++ '-' :: (two day ++ 'T' :: (two hour ++ ':' ::
      (two minute ++ ':' :: (two second ++ ((fractionText fraction).toList ++ noOffset))))))) =
      some ⟨(daysTo year month day * 86400 + hour * 3600 + minute * 60 + second) * 1000000000 +
        fraction⟩ := by
  have hlength : daysInMonth year month ≤ 31 := by
    rw [daysInMonth]
    split
    · split <;> omega
    · split <;> omega
  have htwo {n : Nat} (h : n < 100) (rest : List Char) :
      takeDigits 2 (Text.decimalFixed 2 n ++ rest) = some (n, rest) :=
    takeDigits_decimalFixed (by decide) h rest
  have hoffset : takeOffset noOffset = some (0, []) := by decide
  have hdate : (decide (month < 1) || decide (12 < month) || decide (day < 1) ||
      decide (daysInMonth year month < day)) = false := by
    simp only [Bool.or_eq_false_iff, decide_eq_false_iff_not]
    omega
  have htime : (decide (23 < hour) || decide (59 < minute) || decide (60 < second)) = false := by
    simp only [Bool.or_eq_false_iff, decide_eq_false_iff_not]
    omega
  simp only [readInYear?, takeChar, if_true, Option.bind_eq_bind, Option.bind_some,
    Option.orElse_eq_orElse, Option.orElse_some,
    htwo (show month < 100 by omega), htwo (show day < 100 by omega),
    htwo (show hour < 100 by omega), htwo (show minute < 100 by omega),
    htwo (show second < 100 by omega), takeFraction_fractionText hfraction, hoffset, hdate, htime,
    List.isEmpty_nil, Bool.not_true, Bool.false_eq_true, if_false, Int.sub_zero]

def year (t : Instant) : Int := (civil (t.nanoseconds / 1000000000 / 86400)).1

/-- Behind its year, the text of an instant is the instant. -/
theorem text_in_year (t : Instant) : ∃ cs,
    t.text.toList = (yearText t.year).toList ++ '-' :: cs ∧
      readInYear? t.year ('-' :: cs) = some t := by
  obtain ⟨y, month, day, hcivil⟩ : ∃ y month day,
      civil (t.nanoseconds / 1000000000 / 86400) = (y, month, day) := ⟨_, _, _, rfl⟩
  have hyear : t.year = y := congrArg Prod.fst hcivil
  obtain ⟨⟨hmonth, hmonths, hday, hdays⟩, hdate⟩ := civil_spec hcivil
  rw [hyear]
  refine ⟨_, toList_text t hcivil, (readInYear?_written ⟨hmonth, hmonths⟩ ⟨hday, hdays⟩ ?_ ?_ ?_
    ?_).trans ?_⟩
  iterate 4 omega
  rw [hdate]
  congr 2
  omega

theorem toList_yearText {y : Int} (h : 0 ≤ y ∧ y ≤ 9999) :
    (yearText y).toList = Text.decimalFixed 4 y.toNat := by
  simp [yearText, h]

theorem takeDigits_yearText {y : Int} (h : 0 ≤ y ∧ y ≤ 9999) (cs : List Char) :
    takeDigits 4 ((yearText y).toList ++ cs) = some (y.toNat, cs) := by
  rw [toList_yearText h]
  exact takeDigits_decimalFixed (by decide) (by omega) cs

theorem read?_text {t : Instant} (h : 0 ≤ t.year ∧ t.year ≤ 9999) : read? t.text = some t := by
  obtain ⟨cs, htext, hread⟩ := t.text_in_year
  rw [read?_eq, htext, takeDigits_yearText h, Option.bind_some]
  show readInYear? t.year.toNat ('-' :: cs) = some t
  rw [Int.toNat_of_nonneg h.1]
  exact hread

/-- A year beyond four digits is a sign and the digits of its amount, at least four. -/
theorem toList_yearText_signed {y : Int} (h : ¬(0 ≤ y ∧ y ≤ 9999)) : ∃ ds,
    (yearText y).toList = (if y < 0 then '-' else '+') :: ds ∧ 4 ≤ ds.length ∧
      (∀ c ∈ ds, c.isDigit = true) ∧ Text.readDigits? ds = some y.natAbs := by
  have hdigits : (toString y.natAbs).toList = Nat.toDigits 10 y.natAbs := by
    rw [Nat.toString_eq_ofList_toDigits, String.toList_ofList]
  have hlong : (decide (0 ≤ y) && decide (y ≤ 9999)) = false := by
    rw [Bool.and_eq_false_iff, decide_eq_false_iff_not, decide_eq_false_iff_not]
    exact Classical.not_and_iff_not_or_not.mp h
  refine ⟨List.replicate (4 - (toString y.natAbs).length) '0' ++ Nat.toDigits 10 y.natAbs,
    ?_, ?_, ?_, Text.readDigits?_zeros _ _⟩
  · have hsign : (if y < 0 then "-" else "+" : String).toList =
        [if y < 0 then '-' else '+'] := by split <;> rfl
    simp only [yearText, hlong, Bool.false_eq_true, if_false, String.toList_append, hsign,
      String.toList_ofList, hdigits, List.singleton_append]
  · rw [List.length_append, List.length_replicate, ← hdigits, String.length_toList]
    omega
  · intro c hc
    rw [List.mem_append] at hc
    rcases hc with hzero | hdigit
    · rw [List.eq_of_mem_replicate hzero]
      decide
    · exact Text.isDigit_of_mem_digits hdigit

/-- A year of four digits has no sign, since its first digit is a digit. -/
theorem readLong?_of_isDigit {s : String} {c : Char} {cs : List Char} (htext : s.toList = c :: cs)
    (hc : c.isDigit = true) : readLong? s = read? s := by
  rw [readLong?, read?_eq, htext]
  split
  · next heq => cases heq; cases hc
  · next heq => cases heq; cases hc
  · rfl

theorem readLong?_text (t : Instant) : readLong? t.text = some t := by
  obtain ⟨cs, htext, hread⟩ := t.text_in_year
  by_cases h : 0 ≤ t.year ∧ t.year ≤ 9999
  · have hlength := Text.length_decimalFixed 4 t.year.toNat
    rw [toList_yearText h] at htext
    obtain ⟨c, ds, hfirst⟩ := List.exists_cons_of_length_pos
      (hlength ▸ Nat.zero_lt_succ 3 : 0 < (Text.decimalFixed 4 t.year.toNat).length)
    have hc : c.isDigit = true :=
      Text.isDigit_of_mem_decimalFixed (hfirst ▸ List.mem_cons_self)
    rw [hfirst, List.cons_append] at htext
    rw [readLong?_of_isDigit htext hc]
    exact read?_text h
  · obtain ⟨ds, hyear, hlength, hdigits, hvalue⟩ := toList_yearText_signed h
    have htake : (ds ++ '-' :: cs).takeWhile Char.isDigit = ds := by
      rw [List.takeWhile_append_of_pos hdigits]
      exact List.append_nil ds
    have hdrop : (ds ++ '-' :: cs).dropWhile Char.isDigit = '-' :: cs := by
      rw [List.dropWhile_append_of_pos hdigits]
      rfl
    have hsigned (negative : Bool)
        (hsign : (if negative then -(t.year.natAbs : Int) else t.year.natAbs) = t.year) :
        readLong?.signed negative (ds ++ '-' :: cs) = some t := by
      simp only [readLong?.signed, htake, hdrop, hvalue, Nat.not_lt.mpr hlength, if_false,
        Option.bind_some, hsign, hread]
    rw [readLong?, htext, hyear, List.cons_append]
    by_cases hnegative : t.year < 0
    · rw [if_pos hnegative]
      exact hsigned true (by simp only [if_true]; omega)
    · rw [if_neg hnegative]
      exact hsigned false (by simp only [Bool.false_eq_true, if_false]; omega)

end Grove.Instant
