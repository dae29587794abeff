import Mathlib.Data.Nat.Find
import Mathlib.Data.String.Basic
import Mathlib.Order.Monotone.Basic
import Mathlib.Tactic.IntervalCases

/-!
# ISO-8601 text of an instant

`toISOString` renders an instant, in milliseconds of the Unix epoch, in the
format of ECMAScript's `Date.prototype.toISOString`: `YYYY-MM-DDTHH:mm:ss.sssZ`
for the years 0 to 9999, and a signed six-digit year outside them; an instant
outside the date range has no text.

The point of the module is `isoText_le_iff`: comparing the texts as strings is
comparing the instants, as long as the later years stay below 10000. The proof
reads the text as a list of fixed-width decimal fields: equal-width decimals
compare as their values (`pad_lt_pad`), a fixed layout compares as its field
list (`render_lt`), and the field list of an instant is lexicographically
increasing (`isoFields_lt`).
-/

namespace Opensquid.Lib.Iso

/-! ## The proleptic Gregorian calendar, counted from 0000-01-01 -/

def msPerDay : Nat := 86400000

/-- Days before the first day of year `y`. -/
def dayFromYear (y : Nat) : Nat :=
  365 * y + (y + 3) / 4 + (y + 399) / 400 - (y + 99) / 100

def isLeap (y : Nat) : Bool := decide (y % 4 = 0 ∧ (y % 100 ≠ 0 ∨ y % 400 = 0))

/-- The year that contains a day: the greatest year that has begun by then. -/
def yearFromDay (day : Nat) : Nat :=
  Nat.findGreatest (fun y => dayFromYear y ≤ day) (day / 365)

/-- Days before the first day of a month (`0` is January), by the length of
February. -/
def monthStart (leap : Bool) (month : Nat) : Nat :=
  match month with
  | 0 => 0
  | 1 => 31
  | m =>
      leap.toNat + match m with
        | 2 => 59
        | 3 => 90
        | 4 => 120
        | 5 => 151
        | 6 => 181
        | 7 => 212
        | 8 => 243
        | 9 => 273
        | 10 => 304
        | 11 => 334
        | _ => 365

def monthFromDay (leap : Bool) (dayInYear : Nat) : Nat :=
  Nat.findGreatest (fun m => monthStart leap m ≤ dayInYear) 11

theorem dayFromYear_succ (y : Nat) :
    dayFromYear (y + 1) = dayFromYear y + 365 + (isLeap y).toNat := by
  have fours : (y + 1 + 3) / 4 = (y + 3) / 4 + if y % 4 = 0 then 1 else 0 := by
    split <;> omega
  have hundreds : (y + 1 + 99) / 100 = (y + 99) / 100 + if y % 100 = 0 then 1 else 0 := by
    split <;> omega
  have cycle : (y + 1 + 399) / 400 = (y + 399) / 400 + if y % 400 = 0 then 1 else 0 := by
    split <;> omega
  have nested : (y % 400 = 0 → y % 100 = 0) ∧ (y % 100 = 0 → y % 4 = 0) := by omega
  have enough : (y + 99) / 100 ≤ (y + 3) / 4 := by omega
  unfold dayFromYear isLeap
  rw [fours, hundreds, cycle]
  obtain ⟨cent, quad⟩ := nested
  by_cases by4 : y % 4 = 0 <;> by_cases by100 : y % 100 = 0 <;>
    by_cases by400 : y % 400 = 0 <;>
    simp only [by4, by100, by400, true_and, false_and, not_true_eq_false, not_false_eq_true,
      or_true, or_false, ne_eq, decide_true, decide_false, Bool.toNat_true, Bool.toNat_false,
      ↓reduceIte, forall_const] at cent quad ⊢ <;>
    omega

theorem dayFromYear_strictMono : StrictMono dayFromYear :=
  strictMono_nat_of_lt_succ fun y => by
    rw [dayFromYear_succ]
    omega

theorem year_le_of_dayFromYear_le {y day : Nat} (begun : dayFromYear y ≤ day) :
    y ≤ day / 365 := by
  unfold dayFromYear at begun
  omega

/-- A day lies in its year. -/
theorem yearFromDay_spec (day : Nat) :
    dayFromYear (yearFromDay day) ≤ day ∧ day < dayFromYear (yearFromDay day + 1) := by
  constructor
  · exact Nat.findGreatest_spec (P := fun y => dayFromYear y ≤ day) (Nat.zero_le _)
      (Nat.zero_le day)
  · by_contra late
    have begun : dayFromYear (yearFromDay day + 1) ≤ day := Nat.le_of_not_lt late
    exact Nat.findGreatest_is_greatest (P := fun y => dayFromYear y ≤ day)
      (Nat.lt_succ_self _) (year_le_of_dayFromYear_le begun) begun

theorem yearFromDay_mono {a b : Nat} (le : a ≤ b) : yearFromDay a ≤ yearFromDay b := by
  by_contra later
  have begun := dayFromYear_strictMono.monotone (Nat.succ_le_of_lt (Nat.lt_of_not_le later))
  have inB := (yearFromDay_spec b).2
  have inA := (yearFromDay_spec a).1
  simp only [Nat.succ_eq_add_one] at begun
  omega

theorem monthFromDay_le (leap : Bool) (day : Nat) : monthFromDay leap day ≤ 11 :=
  Nat.findGreatest_le 11

theorem monthStart_monthFromDay_le (leap : Bool) (day : Nat) :
    monthStart leap (monthFromDay leap day) ≤ day :=
  Nat.findGreatest_spec (P := fun m => monthStart leap m ≤ day) (Nat.zero_le 11)
    (Nat.zero_le day)

theorem monthFromDay_mono {leap : Bool} {a b : Nat} (le : a ≤ b) :
    monthFromDay leap a ≤ monthFromDay leap b :=
  Nat.le_findGreatest (monthFromDay_le leap a)
    ((monthStart_monthFromDay_le leap a).trans le)

theorem monthStart_succ_le {leap : Bool} {m : Nat} (inYear : m ≤ 11) :
    monthStart leap (m + 1) ≤ monthStart leap m + 31 := by
  interval_cases m <;> cases leap <;> decide

/-- The day within its month is below 31. -/
theorem dayInMonth_lt (leap : Bool) (day : Nat) (inYear : day < 365 + leap.toNat) :
    day - monthStart leap (monthFromDay leap day) < 31 := by
  have small := monthFromDay_le leap day
  have next : day < monthStart leap (monthFromDay leap day + 1) := by
    rcases Nat.lt_or_ge (monthFromDay leap day) 11 with before | last
    · by_contra late
      exact Nat.findGreatest_is_greatest (P := fun m => monthStart leap m ≤ day)
        (Nat.lt_succ_self _) before (Nat.le_of_not_lt late)
    · have december : monthFromDay leap day = 11 := Nat.le_antisymm small last
      rw [december, Nat.add_comm 365] at *
      exact inYear
  have gap : monthStart leap (monthFromDay leap day + 1) ≤ _ := monthStart_succ_le small
  omega

/-! ## Fields of an instant -/

/-- Year, month, day, hour, minute, second and millisecond of an instant
counted from the start of year 0. -/
def isoFields (u : Nat) : List Nat :=
  let day := u / msPerDay
  let time := u % msPerDay
  let year := yearFromDay day
  let dayInYear := day - dayFromYear year
  let month := monthFromDay (isLeap year) dayInYear
  let dayInMonth := dayInYear - monthStart (isLeap year) month
  [year, month + 1, dayInMonth + 1,
    time / 3600000, time / 60000 % 60, time / 1000 % 60, time % 1000]

/-- A later instant has a lexicographically greater field list. -/
theorem isoFields_lt {u v : Nat} (lt : u < v) : isoFields u < isoFields v := by
  have dayLe : u / msPerDay ≤ v / msPerDay := Nat.div_le_div_right lt.le
  have begunU := (yearFromDay_spec (u / msPerDay)).1
  simp only [isoFields, List.cons_lt_cons_iff, Nat.add_right_cancel_iff, Nat.add_lt_add_iff_right]
  rcases (yearFromDay_mono dayLe).lt_or_eq with year | year
  · exact Or.inl year
  refine Or.inr ⟨year, ?_⟩
  rw [← year]
  have sub : u / msPerDay - dayFromYear (yearFromDay (u / msPerDay)) ≤
      v / msPerDay - dayFromYear (yearFromDay (u / msPerDay)) := Nat.sub_le_sub_right dayLe _
  rcases (monthFromDay_mono sub).lt_or_eq with month | month
  · exact Or.inl month
  refine Or.inr ⟨month, ?_⟩
  rw [← month]
  have startLe := monthStart_monthFromDay_le (isLeap (yearFromDay (u / msPerDay)))
    (u / msPerDay - dayFromYear (yearFromDay (u / msPerDay)))
  rcases dayLe.lt_or_eq with day | day
  · exact Or.inl (by omega)
  refine Or.inr ⟨by rw [day], ?_⟩
  have time : u % msPerDay < v % msPerDay := by
    have divU := Nat.div_add_mod u msPerDay
    have divV := Nat.div_add_mod v msPerDay
    rw [day] at divU
    omega
  generalize u % msPerDay = a at time
  generalize v % msPerDay = b at time
  simp only [List.lt_irrefl, and_false, or_false]
  omega

/-! ## Fixed-width decimals -/

/-- The last `width` decimal digits of a number. -/
def pad : Nat → Nat → List Char
  | 0, _ => []
  | width + 1, n => pad width (n / 10) ++ [Nat.digitChar (n % 10)]

theorem pad_length (width n : Nat) : (pad width n).length = width := by
  induction width generalizing n with
  | zero => rfl
  | succ width ih => simp only [pad, List.length_append, ih, List.length_singleton]

theorem append_lt_append_left {x y : List Char} (a : List Char) (lt : x < y) :
    a ++ x < a ++ y := by
  induction a with
  | nil => exact lt
  | cons c a ih => exact List.cons_lt_cons_iff.mpr (Or.inr ⟨rfl, ih⟩)

theorem append_lt_append_of_lt {a b : List Char} (length : a.length = b.length) (lt : a < b)
    (x y : List Char) : a ++ x < b ++ y := by
  induction a generalizing b with
  | nil =>
      cases b with
      | nil => exact absurd lt (List.lt_irrefl [])
      | cons => cases length
  | cons c a ih =>
      cases b with
      | nil => cases length
      | cons d b =>
          simp only [List.length_cons, Nat.add_right_cancel_iff] at length
          rcases List.cons_lt_cons_iff.mp lt with head | ⟨head, tail⟩
          · exact List.cons_lt_cons_iff.mpr (Or.inl head)
          · exact List.cons_lt_cons_iff.mpr (Or.inr ⟨head, ih length tail⟩)

theorem digitChar_lt {a b : Nat} (lt : a < b) (digit : b < 10) :
    Nat.digitChar a < Nat.digitChar b := by
  interval_cases b <;> interval_cases a <;> decide

theorem pad_lt_pad {width n m : Nat} (lt : n < m) (fits : m < 10 ^ width) :
    pad width n < pad width m := by
  induction width generalizing n m with
  | zero => omega
  | succ width ih =>
      rw [Nat.pow_succ] at fits
      rcases Nat.lt_or_ge (n / 10) (m / 10) with high | high
      · exact append_lt_append_of_lt ((pad_length _ _).trans (pad_length _ _).symm)
          (ih high (by omega)) _ _
      · have same : n / 10 = m / 10 := by omega
        rw [pad, pad, same]
        exact append_lt_append_left _ (List.cons_lt_cons_iff.mpr
          (Or.inl (digitChar_lt (by omega) (Nat.mod_lt m (by decide)))))

/-! ## Layouts -/

/-- Render a field list: each field in its width, followed by its separator. -/
def render : List (Nat × List Char) → List Nat → List Char
  | (width, separator) :: layout, n :: fields =>
      pad width n ++ (separator ++ render layout fields)
  | _, _ => []

/-- Every field is shorter than its width. -/
def Fits : List (Nat × List Char) → List Nat → Prop
  | (width, _) :: layout, n :: fields => n < 10 ^ width ∧ Fits layout fields
  | [], [] => True
  | _, _ => False

theorem render_lt {layout : List (Nat × List Char)} {xs ys : List Nat} (lt : xs < ys)
    (fitsX : Fits layout xs) (fitsY : Fits layout ys) : render layout xs < render layout ys := by
  induction layout generalizing xs ys with
  | nil =>
      cases xs with
      | cons => exact fitsX.elim
      | nil =>
          cases ys with
          | cons => exact fitsY.elim
          | nil => exact absurd lt (List.lt_irrefl [])
  | cons field layout ih =>
      cases xs with
      | nil => exact fitsX.elim
      | cons x xs =>
          cases ys with
          | nil => exact fitsY.elim
          | cons y ys =>
              simp only [render]
              rcases List.cons_lt_cons_iff.mp lt with head | ⟨rfl, tail⟩
              · exact append_lt_append_of_lt ((pad_length _ _).trans (pad_length _ _).symm)
                  (pad_lt_pad head fitsY.1) _ _
              · exact append_lt_append_left _ (append_lt_append_left _ (ih tail fitsX.2 fitsY.2))

/-- `YYYY-MM-DDTHH:mm:ss.sssZ`, with a year of the given width. -/
def isoLayout (yearWidth : Nat) : List (Nat × List Char) :=
  [(yearWidth, ['-']), (2, ['-']), (2, ['T']), (2, [':']), (2, [':']), (2, ['.']), (3, ['Z'])]

theorem isoFields_fits {yearWidth u : Nat} (year : yearFromDay (u / msPerDay) < 10 ^ yearWidth) :
    Fits (isoLayout yearWidth) (isoFields u) := by
  have inYear := yearFromDay_spec (u / msPerDay)
  rw [dayFromYear_succ] at inYear
  have month := monthFromDay_le (isLeap (yearFromDay (u / msPerDay)))
    (u / msPerDay - dayFromYear (yearFromDay (u / msPerDay)))
  have day := dayInMonth_lt (isLeap (yearFromDay (u / msPerDay)))
    (u / msPerDay - dayFromYear (yearFromDay (u / msPerDay))) (by omega)
  have time : u % msPerDay < 86400000 := Nat.mod_lt u (by decide)
  simp only [isoLayout, isoFields, Fits, and_true]
  exact ⟨year, by omega, by omega, by omega, by omega, by omega, by omega⟩

/-! ## The text -/

/-- Milliseconds from 0000-01-01 to the epoch. -/
def epochOffset : Nat := 719528 * msPerDay

/-- The first instant of year 10000. -/
def year10000 : Int := 253402300800000

/-- Milliseconds of seven hundred 400-year cycles: enough to carry the whole
date range past year 0 without changing the calendar. -/
def cycles : Nat := 700 * 146097 * msPerDay

/-- The text of an instant. -/
def isoText (t : Int) : List Char :=
  let u := t + epochOffset
  if 0 ≤ u then
    let fields := isoFields u.toNat
    if yearFromDay (u.toNat / msPerDay) ≤ 9999 then render (isoLayout 4) fields
    else '+' :: render (isoLayout 6) fields
  else
    let fields := isoFields (u + cycles).toNat
    '-' :: render (isoLayout 6) ((280000 - fields.headD 0) :: fields.tail)

/-- `new Date(t).toISOString()`: no value (a `RangeError`) outside the date
range. -/
def toISOString (t : Int) : Option String :=
  if t.natAbs ≤ 8640000000000000 then some (String.ofList (isoText t)) else none

theorem yearFromDay_le_of_lt {u : Nat} (before : (u : Int) < year10000 + epochOffset) :
    yearFromDay (u / msPerDay) ≤ 9999 := by
  have lt : u / msPerDay < dayFromYear 10000 := by
    have total : year10000 + (epochOffset : Int) = ((dayFromYear 10000 * msPerDay : Nat) : Int) := by
      decide
    rw [total] at before
    exact Nat.div_lt_of_lt_mul (Nat.mul_comm _ _ ▸ Int.ofNat_lt.mp before)
  by_contra late
  have begun : dayFromYear 10000 ≤ dayFromYear (yearFromDay (u / msPerDay)) :=
    dayFromYear_strictMono.monotone (Nat.lt_of_not_le late)
  have := (yearFromDay_spec (u / msPerDay)).1
  omega

/-- In the years 0 to 9999 the text is the four-digit layout. -/
theorem isoText_of_fourDigit {t : Int} (after : 0 ≤ t + epochOffset) (before : t < year10000) :
    isoText t = render (isoLayout 4) (isoFields (t + epochOffset).toNat) := by
  have year : yearFromDay ((t + epochOffset).toNat / msPerDay) ≤ 9999 :=
    yearFromDay_le_of_lt (by omega)
  simp only [isoText, after, ↓reduceIte, year]

theorem isoText_lt {s t : Int} (lt : s < t) (after : 0 ≤ s + epochOffset) (before : t < year10000) :
    isoText s < isoText t := by
  rw [isoText_of_fourDigit after (by omega), isoText_of_fourDigit (by omega) before]
  refine render_lt (isoFields_lt (by omega)) (isoFields_fits ?_) (isoFields_fits ?_)
  · exact Nat.lt_succ_of_le (yearFromDay_le_of_lt (by omega))
  · exact Nat.lt_succ_of_le (yearFromDay_le_of_lt (by omega))

/-- The text of a year before 0 is below every four-digit text. -/
theorem isoText_neg_lt {s t : Int} (early : s + epochOffset < 0) (after : 0 ≤ t + epochOffset)
    (before : t < year10000) : isoText s < isoText t := by
  have notNeg : ¬ 0 ≤ s + epochOffset := by omega
  have year : yearFromDay ((t + epochOffset).toNat / msPerDay) ≤ 9999 :=
    yearFromDay_le_of_lt (by omega)
  rw [isoText_of_fourDigit after before]
  simp only [isoText, notNeg, ↓reduceIte, isoLayout, isoFields, render, pad, List.nil_append,
    List.cons_append]
  refine List.cons_lt_cons_iff.mpr (Or.inl ?_)
  have digit : ∀ d < 10, '-' < Nat.digitChar d := by decide
  exact digit _ (Nat.mod_lt _ (by decide))

/-- Comparing texts is comparing instants, up to year 9999. -/
theorem isoText_le_iff {s t : Int} (expiry : s < year10000) (after : 0 ≤ t + epochOffset)
    (before : t < year10000) :
    String.ofList (isoText s) ≤ String.ofList (isoText t) ↔ s ≤ t := by
  have text : ∀ a b : List Char, String.ofList a ≤ String.ofList b ↔ ¬ b < a := fun a b => by
    rw [← String.not_lt, String.lt_iff, String.toList_ofList, String.toList_ofList]
  rw [text]
  constructor
  · intro notLt
    by_contra later
    exact notLt (isoText_lt (by omega) after expiry)
  · intro le lt
    rcases Int.lt_or_eq_of_le le with earlier | rfl
    · rcases lt_or_ge (s + epochOffset) 0 with early | late
      · exact List.lt_asymm lt (isoText_neg_lt early after before)
      · exact List.lt_asymm lt (isoText_lt earlier late before)
    · exact List.lt_irrefl _ lt

end Opensquid.Lib.Iso
