import Filly.Runs
import Filly.TextWidgets

/-!
# The calendar

The widget counts days by a table; `draw_calendar` finds the weekday of the first of a
month by a formula, in `int` arithmetic that is undefined where a sum is too large. Here
the weekday is also counted from month to month, from January of year 1 on, which began
on a Monday. Weekdays are numbered from Sunday on.
-/
namespace Filly.Calendar
open CJson Keys Fil SessionLoop Runs

/-- The days of a month in `calendar.c`. -/
def daysInMonth (y m : ℤ) : ℤ :=
  if m = 1 ∨ m = 3 ∨ m = 5 ∨ m = 7 ∨ m = 8 ∨ m = 10 ∨ m = 12 then 31
  else if m = 4 ∨ m = 6 ∨ m = 9 ∨ m = 11 then 30
  else if m = 2 then
    if y.tmod 4 = 0 ∧ (y.tmod 100 ≠ 0 ∨ y.tmod 400 = 0) then 29 else 28
  else 30

/-! ## `draw_calendar` -/

/-- The days that are drawn. -/
def dim (year month : ℤ) : ℤ :=
  if month = 4 ∨ month = 6 ∨ month = 9 ∨ month = 11 then 30
  else if month = 2 then
    if year.tmod 4 = 0 ∧ (year.tmod 100 ≠ 0 ∨ year.tmod 400 = 0) then 29 else 28
  else 31

/-- A value of type `int`. A sum that is none is undefined. -/
def checkedInt (n : ℤ) : Option ℤ := if -2^31 ≤ n ∧ n < 2^31 then some n else none

/-- The formula, for months from March on. A remainder of 1 is a Sunday. -/
def zeller (m y : ℤ) : Option ℤ := do
  let h ← checkedInt (1+(13*(m+1)).tdiv 5)
  let h ← checkedInt (h+y)
  let h ← checkedInt (h+y.tdiv 4)
  let h ← checkedInt (h-y.tdiv 100)
  let h ← checkedInt (h+y.tdiv 400)
  return h.tmod 7

/-- The weekday of the first of the month. -/
def firstDow (year month : ℤ) : Option ℤ :=
  let m := if month < 3 then month+12 else month
  let yAdj := if month < 3 then year-1 else year
  (zeller m yAdj).map fun h => (h+6).tmod 7

def months : List Bytes :=
  ["Jan","Feb","Mar","Apr","May","Jun","Jul","Aug","Sep","Oct","Nov","Dec"].map bytes

def dow : Bytes := bytes "Su Mo Tu We Th Fr Sa"

def spaces (n : ℤ) : Bytes := List.replicate n.toNat 32

/-- A number of at least two places. -/
def twoPlaces (pad : UInt8) (n : ℤ) : Bytes :=
  List.replicate (2-(intText n).length) pad++intText n

/-- A text and where the terminal puts it, counted from 1. -/
structure Drawn where
  row : ℤ
  col : ℤ
  text : Bytes
  selected : Bool
  deriving DecidableEq, Repr

/-- Half of the places that a text leaves free. -/
def padding (w : ℤ) (text : Bytes) : ℤ := max ((w-text.length)/2) 0

def drawNames (x y w : ℤ) : Drawn := ⟨y+2,x+1,spaces (padding w dow)++dow,false⟩

def drawTitle (x y w year month : ℤ) : Drawn :=
  let title := months.getD (month-1).toNat []++32::intText year
  ⟨y+1,x+1,spaces (padding w title)++title,false⟩

def drawDay (x y w first selectedDay day : ℤ) : Drawn where
  row := y+(2+(first+day-1).tdiv 7)+1
  col := x+(1+padding w dow+(first+day-1).tmod 7*3)
  text := twoPlaces 32 day
  selected := day = selectedDay

/-- The title, the names of the weekdays, and the days. -/
def drawCalendar (x y w year month selectedDay : ℤ) : Option (List Drawn) :=
  (firstDow year month).map fun first =>
    drawTitle x y w year month::drawNames x y w::
      (List.range (dim year month).toNat).map fun i : ℕ => drawDay x y w first selectedDay (i+1)

/-! ## The widget -/

structure CalendarData where
  base : WidgetBase
  title : Bytes
  year : ℤ
  month : ℤ
  selectedDay : ℤ

/-- The day is the one that `localtime` tells. -/
def calendarWidgetNew (title : Bytes) (year month day : ℤ) : CalendarData where
  base := {}
  title := title
  year := year
  month := month
  selectedDay := day

def calendarHandleEvent (ev : SessionLoop.Event) (d : CalendarData) : EventResult × CalendarData :=
  let dim := daysInMonth d.year d.month
  let select (day : ℤ) : EventResult × CalendarData :=
    (.handled,{ d with selectedDay := day, base := d.base.touch })
  match ev with
  | .key .keyEsc _ => (cancelled,d)
  | .key .keyLeft _ => select (if 1 < d.selectedDay then d.selectedDay-1 else d.selectedDay)
  | .key .keyRight _ => select (if d.selectedDay < dim then d.selectedDay+1 else d.selectedDay)
  | .key .keyUp _ => select (if 1 ≤ d.selectedDay-7 then d.selectedDay-7 else 1)
  | .key .keyDown _ => select (if d.selectedDay+7 ≤ dim then d.selectedDay+7 else dim)
  | .key .keyEnter _ =>
      let date := intText d.year++45::twoPlaces 48 d.month++45::twoPlaces 48 d.selectedDay
      (answered (.string (date.take 15)),d)
  | _ => (.unhandled,d)

/-! ## Weekdays from month to month -/

/-- The weekday of the first of a month, as many months after January of year 1. -/
def weekdayAfter : ℕ → ℤ
  | 0 => 1
  | n+1 => (weekdayAfter n+daysInMonth (1+n/12) (1+n%12))%7

/-- The Gregorian weekday of the first of a month. -/
def gregorianWeekday (year month : ℤ) : ℤ := weekdayAfter (12*(year-1)+(month-1)).toNat

/-- The names above the days. -/
def dayNames : List Bytes := ["Su","Mo","Tu","We","Th","Fr","Sa"].map bytes

/-- The sum of the formula where it is largest, with the division that rounds down. -/
def largestSum (m y : ℤ) : ℤ := 1+13*(m+1)/5+y+y/4

/-- All sums of the formula are of type `int`. -/
def Defined (year month : ℤ) : Prop :=
  if month < 3 then largestSum (month+12) (year-1) < 2^31 else largestSum month year < 2^31

theorem checkedInt_eq {n : ℤ} (h : -2^31 ≤ n ∧ n < 2^31) : checkedInt n = some n := if_pos h

theorem zeller_eq {m y : ℤ} (hm : 3 ≤ m ∧ m ≤ 14) (hy : 0 ≤ y) (hlt : largestSum m y < 2^31) :
    zeller m y = some ((largestSum m y-y/100+y/400)%7) := by
  unfold largestSum at hlt ⊢
  have hpos : 0 ≤ 1+13*(m+1)/5+y+y/4-y/100+y/400 := by omega
  unfold zeller
  rw [Int.tdiv_eq_ediv_of_nonneg (by omega),Int.tdiv_eq_ediv_of_nonneg hy,
    Int.tdiv_eq_ediv_of_nonneg hy,Int.tdiv_eq_ediv_of_nonneg hy,checkedInt_eq (by omega)]
  simp only [Option.bind_eq_bind,Option.bind_some]
  rw [checkedInt_eq (by omega),Option.bind_some,checkedInt_eq (by omega),Option.bind_some,
    checkedInt_eq (by omega),Option.bind_some,checkedInt_eq (by omega),Option.bind_some,
    Int.tmod_eq_emod_of_nonneg hpos]
  rfl

/-- The weekday that the formula stands for, without bounds. -/
def congruence (year month : ℤ) : ℤ :=
  let m := if month < 3 then month+12 else month
  let y := if month < 3 then year-1 else year
  (largestSum m y-y/100+y/400+6)%7

theorem firstDow_eq {year month : ℤ} (hyear : 1 ≤ year) (hmonth : 1 ≤ month ∧ month ≤ 12)
    (hdefined : Defined year month) : firstDow year month = some (congruence year month) := by
  unfold Defined at hdefined
  unfold firstDow congruence
  split_ifs at hdefined ⊢ with hlt
  all_goals
    dsimp only
    rw [zeller_eq (by omega) (by omega) hdefined,Option.map_some,
      Int.tmod_eq_emod_of_nonneg (by omega)]
    refine congrArg some ?_
    omega

theorem daysInMonth_february (y : ℤ) (hy : 0 ≤ y) :
    daysInMonth y 2 = if y%4 = 0 ∧ (y%100 ≠ 0 ∨ y%400 = 0) then 29 else 28 := by
  unfold daysInMonth
  rw [Int.tmod_eq_emod_of_nonneg hy,Int.tmod_eq_emod_of_nonneg hy,Int.tmod_eq_emod_of_nonneg hy]
  rfl

/-- A quotient grows by one from year to year where the year is a multiple. -/
theorem ediv_pred (y : ℤ) {n : ℤ} (hn : 0 < n) :
    y/n = (y-1)/n+if y%n = 0 then 1 else 0 := by
  have hy := Int.mul_ediv_add_emod y n
  have hrange := Int.emod_nonneg y hn.ne'
  have hlt := Int.emod_lt_of_pos y hn
  split_ifs with hmod
  · have hpred : (y-1)/n = y/n-1 := by
      rw [show y-1 = (n-1)+n*(y/n-1) by rw [mul_sub,mul_one]; omega,
        Int.add_mul_ediv_left _ _ hn.ne',Int.ediv_eq_zero_of_lt (by omega) (by omega),zero_add]
    omega
  · have hpred : (y-1)/n = y/n := by
      rw [show y-1 = (y%n-1)+n*(y/n) by omega,Int.add_mul_ediv_left _ _ hn.ne',
        Int.ediv_eq_zero_of_lt (by omega) (by omega),zero_add]
    omega

theorem congruence_march (y : ℤ) :
    congruence y 3 = (congruence y 2+if y%4 = 0 ∧ (y%100 ≠ 0 ∨ y%400 = 0) then 29 else 28)%7 := by
  have h400 : y%400 = 0 → y%100 = 0 := fun h =>
    Int.emod_eq_zero_of_dvd ((by decide : (100:ℤ) ∣ 400).trans (Int.dvd_of_emod_eq_zero h))
  have h100 : y%100 = 0 → y%4 = 0 := fun h =>
    Int.emod_eq_zero_of_dvd ((by decide : (4:ℤ) ∣ 100).trans (Int.dvd_of_emod_eq_zero h))
  unfold congruence largestSum
  norm_num
  rw [ediv_pred y (by decide : (0:ℤ) < 4),ediv_pred y (by decide : (0:ℤ) < 100),
    ediv_pred y (by decide : (0:ℤ) < 400)]
  -- Only the remainders tell a leap year from another one.
  generalize (y-1)/4 = a,(y-1)/100 = b,(y-1)/400 = c
  split_ifs
  all_goals omega

/-- A month later the formula is further by the days of the month. -/
theorem congruence_next {y : ℤ} (hy : 1 ≤ y) {m : ℤ} (hm : 1 ≤ m ∧ m < 12) :
    congruence y (m+1) = (congruence y m+daysInMonth y m)%7 := by
  obtain ⟨hlow,hhigh⟩ := hm
  by_cases hfebruary : m = 2
  · subst hfebruary
    rw [daysInMonth_february y (by omega)]
    exact congruence_march y
  · unfold congruence largestSum
    interval_cases m
    case «2» => exact absurd rfl hfebruary
    all_goals
      simp only [daysInMonth]
      norm_num
      omega

/-- From December on, the formula is for the next year. -/
theorem congruence_newYear (y : ℤ) :
    congruence (y+1) 1 = (congruence y 12+daysInMonth y 12)%7 := by
  unfold congruence largestSum
  simp only [daysInMonth]
  norm_num
  omega

theorem weekdayAfter_eq (n : ℕ) : weekdayAfter n = congruence (1+n/12) (1+n%12) := by
  induction n with
  | zero => decide
  | succ n ih =>
      rw [weekdayAfter,ih]
      by_cases hlast : n%12 = 11
      · have hyear : (1:ℤ)+((n+1:ℕ):ℤ)/12 = 1+n/12+1 := by omega
        have hmonth : (1:ℤ)+((n+1:ℕ):ℤ)%12 = 1 := by omega
        have hmonth' : (1:ℤ)+(n:ℤ)%12 = 12 := by omega
        rw [hyear,hmonth,hmonth',congruence_newYear]
      · have hyear : (1:ℤ)+((n+1:ℕ):ℤ)/12 = 1+n/12 := by omega
        have hmonth : (1:ℤ)+((n+1:ℕ):ℤ)%12 = 1+n%12+1 := by omega
        rw [hyear,hmonth,congruence_next (by omega) ⟨by omega,by omega⟩]

theorem gregorianWeekday_eq {year month : ℤ} (hyear : 1 ≤ year)
    (hmonth : 1 ≤ month ∧ month ≤ 12) : gregorianWeekday year month = congruence year month := by
  rw [gregorianWeekday,weekdayAfter_eq]
  congr 1
  all_goals omega

/-! ## What is drawn -/

theorem dim_eq {year month : ℤ} (hmonth : 1 ≤ month ∧ month ≤ 12) :
    dim year month = daysInMonth year month := by
  obtain ⟨hlow,hhigh⟩ := hmonth
  interval_cases month
  all_goals rfl

/-- The two characters of the line with the names that stand above a text. -/
def above (header t : Drawn) : Bytes := (header.text.drop (t.col-header.col).toNat).take 2

theorem name_above_day {y x w first selectedDay day : ℤ} (hfirst : 0 ≤ first) (hday : 1 ≤ day) :
    above (drawNames x y w) (drawDay x y w first selectedDay day) =
      dayNames.getD ((first+day-1)%7).toNat [] := by
  have hpadding : 0 ≤ padding w dow := le_max_right _ _
  obtain ⟨k,hk⟩ : ∃ k : ℕ, (first+day-1)%7 = k := Int.eq_ofNat_of_zero_le (by omega)
  have hk7 : k < 7 := by omega
  have hcol : (drawDay x y w first selectedDay day).col-(x+1) = padding w dow+3*k := by
    simp only [drawDay]
    rw [Int.tmod_eq_emod_of_nonneg (by omega),hk]
    ring
  unfold above drawNames
  rw [hcol,hk,Int.toNat_natCast,spaces,List.drop_append,List.length_replicate,
    List.drop_of_length_le (by rw [List.length_replicate]; omega),List.nil_append,
    show (padding w dow+3*(k:ℤ)).toNat-(padding w dow).toNat = 3*k by omega]
  interval_cases k
  all_goals decide

/-! ## The selected day -/

def CalendarData.InMonth (d : CalendarData) : Prop :=
  1 ≤ d.selectedDay ∧ d.selectedDay ≤ daysInMonth d.year d.month

theorem daysInMonth_pos (y m : ℤ) : 1 ≤ daysInMonth y m := by
  unfold daysInMonth
  split_ifs
  all_goals decide

theorem inMonth_handleEvent (ev : SessionLoop.Event) {d : CalendarData} (hd : d.InMonth) :
    (calendarHandleEvent ev d).2.InMonth := by
  have hpos := daysInMonth_pos d.year d.month
  unfold CalendarData.InMonth at hd
  unfold calendarHandleEvent CalendarData.InMonth
  split
  all_goals
    dsimp only
    try split_ifs
    all_goals omega

/-- The calendar agrees with the days counted from month to month: always in the number of
days and the selected day, and where the formula is defined in the weekdays too. -/
theorem calendar_agrees {year month : ℤ} (hyear : 1 ≤ year) (hmonth : 1 ≤ month ∧ month ≤ 12) :
    dim year month = daysInMonth year month ∧
    (∀ title day evs, 1 ≤ day → day ≤ daysInMonth year month →
      Always (fun d ev => (calendarHandleEvent ev d).2) CalendarData.InMonth
        (calendarWidgetNew title year month day) evs) ∧
    (Defined year month →
      firstDow year month = some (gregorianWeekday year month) ∧
      ∀ x y w selectedDay, ∃ days : List Drawn,
        drawCalendar x y w year month selectedDay =
          some (drawTitle x y w year month::drawNames x y w::days) ∧
        days.map Drawn.text =
          (List.range (daysInMonth year month).toNat).map (fun i : ℕ => twoPlaces 32 (i+1)) ∧
        ∀ (i : ℕ) (hi : i < days.length), above (drawNames x y w) days[i] =
          dayNames.getD ((gregorianWeekday year month+i)%7).toNat []) := by
  refine ⟨dim_eq hmonth,fun title day evs hday hday' => ?_,fun hdefined => ?_⟩
  · exact always_of_invariant (fun d ev hd => inMonth_handleEvent ev hd) _ evs ⟨hday,hday'⟩
  · have hfirst : firstDow year month = some (gregorianWeekday year month) := by
      rw [firstDow_eq hyear hmonth hdefined,gregorianWeekday_eq hyear hmonth]
    have hnonneg : 0 ≤ gregorianWeekday year month := by
      rw [gregorianWeekday_eq hyear hmonth]
      exact Int.emod_nonneg _ (by decide)
    refine ⟨hfirst,fun x y w selectedDay => ⟨_,congrArg (Option.map _) hfirst,?_,?_⟩⟩
    · rw [List.map_map,dim_eq hmonth]
      rfl
    · intro i hi
      rw [List.getElem_map,List.getElem_range,name_above_day hnonneg (by omega)]
      congr 3
      ring

/-- February 2024 begins on a Thursday. -/
theorem february_2024 : dim 2024 2 = daysInMonth 2024 2 ∧
    (∀ title day evs, 1 ≤ day → day ≤ daysInMonth 2024 2 →
      Always (fun d ev => (calendarHandleEvent ev d).2) CalendarData.InMonth
        (calendarWidgetNew title 2024 2 day) evs) ∧
    firstDow 2024 2 = some (gregorianWeekday 2024 2) ∧ firstDow 2024 2 = some 4 :=
  have h := @calendar_agrees 2024 2 (by decide) (by decide)
  ⟨h.1,h.2.1,(h.2.2 (by norm_num [Defined,largestSum])).1,by decide⟩

/-- In March of the year 2000000000 the sum is too large for an `int`. -/
theorem weekday_is_undefined : firstDow 2000000000 3 ≠ some (gregorianWeekday 2000000000 3) := by
  have hnone : firstDow 2000000000 3 = none := by decide
  rw [hnone]
  exact (Option.some_ne_none _).symm

end Filly.Calendar
