import UBoot.Words

/-!
Seconds since 1970 and calendar dates: `rtc_to_tm` of `lib/rtc-lib.c`, `rtc_mktime` and
`rtc_calc_weekday` of `lib/date.c`. `int` has 32 bits and `unsigned long` has 64. The number of a day
is an `int` in `rtc_to_tm`, and so is the number since the year 1 in `rtc_calc_weekday`.
-/
namespace UBoot.RtcDates
open UBoot.Words List

structure RtcTime where
  tm_sec : ℤ
  tm_min : ℤ
  tm_hour : ℤ
  tm_mday : ℤ
  tm_mon : ℤ
  tm_year : ℤ
  tm_wday : ℤ
  tm_yday : ℤ
  tm_isdst : ℤ

def is_leap_year (year : ℤ) : Bool := (year%4 = 0 ∧ year%100 ≠ 0) ∨ year%400 = 0

def rtc_days_in_month : List ℤ := [31,28,31,30,31,30,31,31,30,31,30,31]

def LEAPS_THRU_END_OF (y : ℤ) : ℤ := y/4-y/100+y/400

/-- The months are counted from 0. -/
def rtc_month_days (month : ℕ) (year : ℤ) : ℤ := rtc_days_in_month.getD month 0+if is_leap_year year ∧ month = 1 then 1 else 0

/-- `while (days < 0)`, for so many rounds; `year` is unsigned. -/
def year_loop : ℕ → ℤ → ℤ → ℤ × ℤ
  | 0, year, days => (year,days)
  | rounds+1, year, days =>
    if days < 0 then
      let year := (year-1)%2^32
      year_loop rounds year (days+365+if is_leap_year year then 1 else 0)
    else (year,days)

/-- The loop over the months, for so many rounds. -/
def month_loop (year : ℤ) : ℕ → ℕ → ℤ → ℕ × ℤ
  | 0, month, days => (month,days)
  | rounds+1, month, days =>
    let newdays := days-rtc_month_days month year
    if newdays < 0 then (month,days) else month_loop year rounds (month+1) newdays

/-- The year and the day in it. A day is added in each round of the loop at least. -/
def find_year (days : ℤ) : ℤ × ℤ :=
  let year := (1970+days.tdiv 365)%2^32
  let days := wrap (days-((year-1970)*365+LEAPS_THRU_END_OF ((year-1)%2^32)-LEAPS_THRU_END_OF (1970-1)))
  year_loop (-days).toNat year days

def rtc_to_tm (time : ℕ) : RtcTime :=
  let days := wrap (time/86400 : ℕ)
  let secs := time%86400
  let found := find_year days
  let month := month_loop found.1 11 0 found.2
  { tm_wday := (wrap (days+4)).tmod 7
    tm_year := wrap found.1
    tm_yday := found.2+1
    tm_mon := month.1+1
    tm_mday := month.2+1
    tm_hour := secs/3600
    tm_min := secs%3600/60
    tm_sec := secs%3600%60
    tm_isdst := 0 }

def month_offset : List ℤ := [0,31,59,90,120,151,181,212,243,273,304,334]

/-- The weekday, unless the year is before 1753. -/
def rtc_calc_weekday (tm : RtcTime) : Option ℤ :=
  if tm.tm_year < 1753 then none
  else
    let last_year := tm.tm_year-1
    let leaps_to_date := last_year/4-last_year/100+last_year/400
    let day := if tm.tm_year%4 = 0 ∧ (tm.tm_year%100 ≠ 0 ∨ tm.tm_year%400 = 0) ∧ tm.tm_mon > 2 then 1 else 0
    let day := wrap (day+(last_year*365+leaps_to_date+month_offset.getD (tm.tm_mon-1).toNat 0+tm.tm_mday))
    some (day.tmod 7)

/-- The value as an `unsigned long`. -/
def rtc_mktime (tm : RtcTime) : ℕ :=
  let mon := if 0 ≥ tm.tm_mon-2 then tm.tm_mon-2+12 else tm.tm_mon-2
  let year := if 0 ≥ tm.tm_mon-2 then tm.tm_year-1 else tm.tm_year
  let days := wrap (year.tdiv 4-year.tdiv 100+year.tdiv 400+(367*mon).tdiv 12+tm.tm_mday)+wrap (year*365)-719499
  ((((days*24+tm.tm_hour)*60+tm.tm_min)*60+tm.tm_sec)%2^64).toNat

theorem wrap_int {n : ℤ} (low : -2^31 ≤ n) (high : n < 2^31) : wrap n = n := by
  apply Int.bmod_eq_of_le <;> omega

theorem wrap_over {n : ℤ} (low : 2^31 ≤ n) (high : n < 3*2^31) : wrap n = n-2^32 := by
  rw [wrap,Int.bmod_def]
  omega

/-! ## Dates -/

/-- A date of the Gregorian calendar and a time of the day. -/
structure Valid (d : RtcTime) : Prop where
  year : -2^31 ≤ d.tm_year ∧ d.tm_year < 2^31
  mon : 1 ≤ d.tm_mon ∧ d.tm_mon ≤ 12
  mday : 1 ≤ d.tm_mday ∧ d.tm_mday ≤ rtc_month_days (d.tm_mon-1).toNat d.tm_year
  hour : 0 ≤ d.tm_hour ∧ d.tm_hour < 24
  min : 0 ≤ d.tm_min ∧ d.tm_min < 60
  sec : 0 ≤ d.tm_sec ∧ d.tm_sec < 60

structure SameTime (d d' : RtcTime) : Prop where
  year : d.tm_year = d'.tm_year
  mon : d.tm_mon = d'.tm_mon
  mday : d.tm_mday = d'.tm_mday
  hour : d.tm_hour = d'.tm_hour
  min : d.tm_min = d'.tm_min
  sec : d.tm_sec = d'.tm_sec

/-- The days from 1970-01-01 to the first day of a year. -/
def year_start (year : ℤ) : ℤ := (year-1970)*365+LEAPS_THRU_END_OF (year-1)-LEAPS_THRU_END_OF 1969

/-- The days of the year before a month, counted from 0. -/
def month_start (year : ℤ) (month : ℕ) : ℤ := ((List.range month).map (rtc_month_days · year)).sum

def day_number (d : RtcTime) : ℤ := year_start d.tm_year+month_start d.tm_year (d.tm_mon-1).toNat+(d.tm_mday-1)

def second_of (d : RtcTime) : ℤ := (d.tm_hour*60+d.tm_min)*60+d.tm_sec

def year_length (year : ℤ) : ℤ := 365+if is_leap_year year then 1 else 0

theorem year_start_next (year : ℤ) : year_start (year+1) = year_start year+year_length year := by
  unfold year_start year_length is_leap_year LEAPS_THRU_END_OF
  simp only [Bool.decide_or,Bool.decide_and,Bool.or_eq_true,Bool.and_eq_true,decide_eq_true_eq]
  split_ifs <;> omega

theorem year_start_le {year year' : ℤ} (later : year < year') : year_start year+year_length year ≤ year_start year' := by
  rw [← year_start_next]
  unfold year_start LEAPS_THRU_END_OF
  omega

/-- The loop ends in the year of the day. -/
theorem year_loop_spec {day : ℤ} (old : 0 ≤ day) {rounds : ℕ} {year days : ℤ} (since : 1970 ≤ year ∧ year < 2^31)
    (here : days = day-year_start year) (below : days < year_length year) (enough : -days ≤ rounds) :
    let found := year_loop rounds year days
    1970 ≤ found.1 ∧ found.1 ≤ year ∧ found.2 = day-year_start found.1 ∧ 0 ≤ found.2 ∧ found.2 < year_length found.1 := by
  induction rounds generalizing year days with
  | zero =>
    have done : 0 ≤ days := by omega
    exact ⟨since.1,le_rfl,here,done,below⟩
  | succ rounds ih =>
    rw [year_loop]
    split_ifs with negative
    · have later : 1970 < year := by
        by_contra first
        have same : year = 1970 := by omega
        rw [same] at here
        have zero : year_start 1970 = 0 := by decide
        omega
      have unsigned : (year-1)%2^32 = year-1 := Int.emod_eq_of_lt (by omega) (by omega)
      have step := year_start_next (year-1)
      rw [Int.sub_add_cancel] at step
      have length : year_length (year-1) = 365+if is_leap_year (year-1) then 1 else 0 := rfl
      simp only [unsigned,Int.add_assoc,← length]
      have positive : 0 < year_length (year-1) := by
        rw [length]
        split_ifs <;> omega
      obtain ⟨low,high,rest⟩ := @ih (year-1) (days+year_length (year-1)) ⟨by omega,by omega⟩ (by omega) (by omega) (by omega)
      exact ⟨low,by omega,rest⟩
    · exact ⟨since.1,le_rfl,here,by omega,below⟩

theorem find_year_spec {day : ℤ} (old : 0 ≤ day) (int : day < 2^31) :
    1970 ≤ (find_year day).1 ∧ (find_year day).1 < 2^31 ∧ (find_year day).2 = day-year_start (find_year day).1 ∧
      0 ≤ (find_year day).2 ∧ (find_year day).2 < year_length (find_year day).1 := by
  have quotient : day.tdiv 365 = day/365 := Int.tdiv_eq_ediv_of_nonneg old
  have unsigned : (1970+day/365)%2^32 = 1970+day/365 := Int.emod_eq_of_lt (by omega) (by omega)
  have before : (1970+day/365-1)%2^32 = 1970+day/365-1 := Int.emod_eq_of_lt (by omega) (by omega)
  have starts : (1970+day/365-1970)*365+LEAPS_THRU_END_OF (1970+day/365-1)-LEAPS_THRU_END_OF (1970-1) = year_start (1970+day/365) := rfl
  have length : 365 ≤ year_length (1970+day/365) := by
    unfold year_length
    split_ifs <;> omega
  have near : -2^31 ≤ day-year_start (1970+day/365) ∧ day-year_start (1970+day/365) < 365 := by
    unfold year_start LEAPS_THRU_END_OF
    omega
  have wraps : wrap (day-year_start (1970+day/365)) = day-year_start (1970+day/365) := wrap_int (by omega) (by omega)
  have looped := @year_loop_spec day old (-(day-year_start (1970+day/365))).toNat (1970+day/365) (day-year_start (1970+day/365))
    ⟨by omega,by omega⟩ rfl (by omega) (by omega)
  unfold find_year
  simp only [quotient,unsigned,before,starts,wraps]
  obtain ⟨low,high,rest⟩ := looped
  exact ⟨low,lt_of_le_of_lt high (by omega),rest⟩

/-- A year that the day is in is the year that is found. -/
theorem year_unique {day year year' : ℤ} (low : year_start year ≤ day) (high : day < year_start year+year_length year)
    (low' : year_start year' ≤ day) (high' : day < year_start year'+year_length year') : year = year' := by
  rcases lt_trichotomy year year' with less | same | more
  · have := year_start_le less
    omega
  · exact same
  · have := year_start_le more
    omega

/-! ## Months -/

theorem month_start_next (year : ℤ) (month : ℕ) : month_start year (month+1) = month_start year month+rtc_month_days month year := by
  rw [month_start,range_succ,map_append,sum_append]
  simp [month_start]

theorem month_days_pos (year : ℤ) {month : ℕ} (twelve : month < 12) : 28 ≤ rtc_month_days month year := by
  unfold rtc_month_days
  split_ifs <;> interval_cases month <;> simp [rtc_days_in_month]

theorem month_start_le (year : ℤ) {month later : ℕ} (less : month < later) (twelve : later ≤ 12) :
    month_start year month+rtc_month_days month year ≤ month_start year later := by
  induction later with
  | zero => omega
  | succ later ih =>
    rw [month_start_next]
    rcases Nat.lt_or_eq_of_le (Nat.le_of_lt_succ less) with before | same
    · have := ih before (by omega)
      have := month_days_pos year (show later < 12 by omega)
      omega
    · rw [same]

theorem month_loop_spec (year : ℤ) {rounds m month : ℕ} (from_ : m ≤ month) (reach : month ≤ m+rounds) (twelve : month < 12) {rest : ℤ}
    (low : 0 ≤ rest) (high : rest < rtc_month_days month year) :
    month_loop year rounds m (month_start year month-month_start year m+rest) = (month,rest) := by
  induction rounds generalizing m with
  | zero =>
    obtain rfl : m = month := by omega
    rw [Int.sub_self,Int.zero_add]
    rfl
  | succ rounds ih =>
    rw [month_loop]
    rcases Nat.lt_or_eq_of_le from_ with before | same
    · have next := month_start_next year m
      have less := month_start_le year before (by omega)
      have days : month_start year month-month_start year m+rest-rtc_month_days m year =
          month_start year month-month_start year (m+1)+rest := by omega
      simp only [days]
      rw [if_neg (by omega)]
      exact ih before (by omega)
    · rw [same,Int.sub_self,Int.zero_add]
      exact if_pos (by omega)

theorem month_found (year : ℤ) {month : ℕ} (twelve : month < 12) {rest : ℤ} (low : 0 ≤ rest) (high : rest < rtc_month_days month year) :
    month_loop year 11 0 (month_start year month+rest) = (month,rest) := by
  have found := @month_loop_spec year 11 0 month (Nat.zero_le month) (by omega) twelve rest low high
  rwa [show month_start year 0 = 0 from rfl,Int.sub_zero] at found

theorem year_months (year : ℤ) : month_start year 12 = year_length year := by
  unfold month_start rtc_month_days year_length
  simp [range_succ,rtc_days_in_month]
  omega

variable {d : RtcTime} {day : ℤ}

/-- Every day of a year is in one of the months. -/
theorem month_of (year : ℤ) (low : 0 ≤ day) (high : day < year_length year) :
    ∃ month < 12, month_start year month ≤ day ∧ day < month_start year month+rtc_month_days month year := by
  by_contra none_
  push Not at none_
  have all : ∀ month ≤ 12, month_start year month ≤ day := by
    intro month
    induction month with
    | zero => exact fun _ => low
    | succ month ih =>
      intro twelve
      rw [month_start_next]
      exact none_ month (by omega) (ih (by omega))
  have := all 12 (le_refl 12)
  rw [year_months] at this
  omega

/-! ## Seconds -/

theorem Valid.second (valid : Valid d) : 0 ≤ second_of d ∧ second_of d < 86400 := by
  have hour := valid.hour
  have min := valid.min
  have sec := valid.sec
  unfold second_of
  omega

theorem Valid.month (valid : Valid d) : (d.tm_mon-1).toNat < 12 ∧ d.tm_mon = (d.tm_mon-1).toNat+1 := by
  have mon := valid.mon
  omega

/-- A day is in its year. -/
theorem Valid.in_year (valid : Valid d) :
    year_start d.tm_year ≤ day_number d ∧ day_number d < year_start d.tm_year+year_length d.tm_year := by
  obtain ⟨twelve,-⟩ := valid.month
  have mday := valid.mday
  have stop := month_start_le d.tm_year twelve (le_refl 12)
  rw [year_months] at stop
  have start : 0 ≤ month_start d.tm_year (d.tm_mon-1).toNat := by
    apply sum_nonneg
    intro days member
    obtain ⟨month,before,rfl⟩ := mem_map.mp member
    have := month_days_pos d.tm_year (lt_trans (mem_range.mp before) twelve)
    omega
  unfold day_number
  omega

/-- The day formula that begins with March. -/
theorem march_days {year : ℤ} {month : ℕ} (twelve : month < 12) (mday : ℤ) (since : 1970 ≤ year) :
    let mon := if 0 ≥ (month : ℤ)+1-2 then (month : ℤ)+1-2+12 else (month : ℤ)+1-2
    let year' := if 0 ≥ (month : ℤ)+1-2 then year-1 else year
    year'.tdiv 4-year'.tdiv 100+year'.tdiv 400+(367*mon).tdiv 12+mday+year'*365-719499 =
      year_start year+month_start year month+(mday-1) := by
  have quarters : ∀ {y : ℤ} (k : ℤ), 0 ≤ y → y.tdiv k = y/k := fun k old => Int.tdiv_eq_ediv_of_nonneg old
  have leap : is_leap_year year = true ↔ year%4 = 0 ∧ year%100 ≠ 0 ∨ year%400 = 0 := by simp [is_leap_year]
  intro mon year'
  simp only [mon,year']
  rw [quarters 4 (by split_ifs <;> omega),quarters 100 (by split_ifs <;> omega),quarters 400 (by split_ifs <;> omega)]
  unfold year_start month_start rtc_month_days LEAPS_THRU_END_OF
  interval_cases month <;> simp [range_succ,rtc_days_in_month,leap] <;> try split_ifs
  all_goals omega

/-- The days of `rtc_mktime`: the product with 365 is an `int`. -/
theorem mktime_eq (valid : Valid d) (since : 1970 ≤ d.tm_year) :
    ∃ year, d.tm_year-1 ≤ year ∧ year ≤ d.tm_year ∧
      rtc_mktime d = (((day_number d+(wrap (year*365)-year*365))*86400+second_of d)%2^64).toNat := by
  obtain ⟨twelve,month⟩ := valid.month
  have days := march_days twelve d.tm_mday since
  rw [← month] at days
  have mday := valid.mday
  have mon := valid.mon
  have small := valid.year
  have short : rtc_month_days (d.tm_mon-1).toNat d.tm_year ≤ 32 := by
    unfold rtc_month_days
    generalize (d.tm_mon-1).toNat = m at twelve
    split_ifs <;> interval_cases m <;> simp [rtc_days_in_month]
  refine ⟨if 0 ≥ d.tm_mon-2 then d.tm_year-1 else d.tm_year,by split_ifs <;> omega,by split_ifs <;> omega,?_⟩
  unfold rtc_mktime
  simp only at days ⊢
  generalize yearIs : (if 0 ≥ d.tm_mon-2 then d.tm_year-1 else d.tm_year) = year at days
  generalize monIs : (if 0 ≥ d.tm_mon-2 then d.tm_mon-2+12 else d.tm_mon-2) = mon' at days
  have near : 1969 ≤ year ∧ year < 2^31 ∧ 1 ≤ mon' ∧ mon' ≤ 12 := by
    rw [← yearIs,← monIs]
    split_ifs <;> omega
  have sum : wrap (year.tdiv 4-year.tdiv 100+year.tdiv 400+(367*mon').tdiv 12+d.tm_mday) =
      year.tdiv 4-year.tdiv 100+year.tdiv 400+(367*mon').tdiv 12+d.tm_mday := by
    have quarters : ∀ k : ℤ, year.tdiv k = year/k := fun k => Int.tdiv_eq_ediv_of_nonneg (by omega)
    have twelfth : (367*mon').tdiv 12 = 367*mon'/12 := Int.tdiv_eq_ediv_of_nonneg (by omega)
    rw [quarters,quarters,quarters,twelfth]
    exact wrap_int (by omega) (by omega)
  rw [sum,day_number,← days]
  congr 2
  unfold second_of
  ring

theorem mktime_days (valid : Valid d) (since : 1970 ≤ d.tm_year) (int : d.tm_year ≤ 5883516) :
    rtc_mktime d = (day_number d*86400+second_of d).toNat := by
  obtain ⟨year,low,high,result⟩ := mktime_eq valid since
  have whole : wrap (year*365) = year*365 := wrap_int (by omega) (by omega)
  have start : 0 ≤ day_number d ∧ day_number d < 2^32 := by
    have inside := valid.in_year
    have length : year_length d.tm_year ≤ 366 := by
      unfold year_length
      split_ifs <;> omega
    unfold year_start LEAPS_THRU_END_OF at inside
    omega
  have second := valid.second
  rw [result,whole,Int.sub_self,Int.add_zero,Int.emod_eq_of_lt (by omega) (by omega)]

/-- The date that is found is valid and is that of the day. -/
theorem to_tm_spec {t : ℕ} (int : t/86400 < 2^31) :
    Valid (rtc_to_tm t) ∧ 1970 ≤ (rtc_to_tm t).tm_year ∧ day_number (rtc_to_tm t) = (t/86400 : ℕ) := by
  have days : wrap (t/86400 : ℕ) = (t/86400 : ℕ) := wrap_of_int (by unfold intMax; omega)
  obtain ⟨since,small,day,low,high⟩ := @find_year_spec (t/86400 : ℕ) (Int.natCast_nonneg _) (by omega)
  obtain ⟨month,twelve,start,stop⟩ := month_of _ low high
  have found := @month_found (find_year (t/86400 : ℕ)).1 month twelve
    ((find_year (t/86400 : ℕ)).2-month_start (find_year (t/86400 : ℕ)).1 month) (by omega) (by omega)
  rw [show ∀ a b : ℤ, a+(b-a) = b from fun a b => by omega] at found
  have year : wrap (find_year (t/86400 : ℕ)).1 = (find_year (t/86400 : ℕ)).1 := wrap_int (by omega) (by omega)
  unfold rtc_to_tm day_number
  simp only [days,year,found]
  have back : ((month : ℤ)+1-1).toNat = month := by omega
  refine ⟨⟨by simp only; omega,by simp only; omega,?_,by simp only; omega,by simp only; omega,by simp only; omega⟩,since,?_⟩
  · simp only [back]
    omega
  · rw [back]
    omega

theorem second_to_tm (t : ℕ) : second_of (rtc_to_tm t) = (t%86400 : ℕ) := by
  unfold rtc_to_tm second_of
  simp only
  omega

theorem same_time {d d' : RtcTime} (valid : Valid d) (valid' : Valid d') (days : day_number d = day_number d')
    (seconds : second_of d = second_of d') : SameTime d d' := by
  have year := year_unique valid.in_year.1 valid.in_year.2 (days ▸ valid'.in_year.1) (days ▸ valid'.in_year.2)
  have months := @month_found d.tm_year _ valid.month.1 (d.tm_mday-1) (by have := valid.mday; omega) (by have := valid.mday; omega)
  have months' := @month_found d'.tm_year _ valid'.month.1 (d'.tm_mday-1) (by have := valid'.mday; omega) (by have := valid'.mday; omega)
  have here : month_start d.tm_year (d.tm_mon-1).toNat+(d.tm_mday-1) = month_start d'.tm_year (d'.tm_mon-1).toNat+(d'.tm_mday-1) := by
    unfold day_number at days
    rw [year] at days ⊢
    omega
  rw [here,year,months'] at months
  obtain ⟨month,mday⟩ := Prod.mk.inj months
  have mon := valid.month.2
  have mon' := valid'.month.2
  have hour' := valid'.hour
  have min := valid.min
  have min' := valid'.min
  have sec := valid.sec
  have sec' := valid'.sec
  unfold second_of at seconds
  exact ⟨year,by omega,by omega,by omega,by omega,by omega⟩

/-! ## Limits -/

/-- The rounds of the loop, which are fewer than the days that are missing. -/
theorem year_loop_rounds (rounds : ℕ) (year days : ℤ) :
    ∃ k, 0 ≤ k ∧ (k = 0 ∨ days+365*(k-1) < 0) ∧ (year_loop rounds (year%2^32) days).1 = (year-k)%2^32 := by
  induction rounds generalizing year days with
  | zero => exact ⟨0,le_rfl,.inl rfl,by rw [Int.sub_zero]; rfl⟩
  | succ rounds ih =>
    rw [year_loop]
    split_ifs with negative
    · have unsigned : (year%2^32-1)%2^32 = (year-1)%2^32 := by omega
      simp only [unsigned]
      obtain ⟨k,some_,more,result⟩ := ih (year-1) (days+365+if is_leap_year ((year-1)%2^32) then 1 else 0)
      refine ⟨k+1,by omega,.inr ?_,?_⟩
      · rcases more with none_ | more
        · rw [none_]
          omega
        · split_ifs at more <;> omega
      · rw [result]
        congr 1
        omega
    · exact ⟨0,le_rfl,.inl rfl,by rw [Int.sub_zero]⟩

theorem year_le_estimate {days : ℤ} (low : -2^31 ≤ days) (high : days < 2^31) : wrap (find_year days).1 ≤ 1970+days.tdiv 365 := by
  have quotient := Int.mul_tdiv_add_tmod days 365
  have rest := Int.tmod_lt_of_pos days (show (0 : ℤ) < 365 by omega)
  have rest' := Int.lt_tmod_of_pos days (show (0 : ℤ) < 365 by omega)
  unfold find_year
  simp only
  generalize leftIs : wrap (days-_) = left
  have least : -2^31 ≤ left := leftIs ▸ le_wrap _
  obtain ⟨k,some_,few,result⟩ := year_loop_rounds (-left).toNat (1970+days.tdiv 365) left
  have estimate : -5883517 ≤ days.tdiv 365 ∧ days.tdiv 365 ≤ 5883517 ∧ k ≤ 5883518 := by omega
  have year : wrap ((1970+days.tdiv 365-k)%2^32) = 1970+days.tdiv 365-k := by
    exact (Int.emod_bmod _ (2^32)).trans (wrap_int (by omega) (by omega))
  rw [result,year]
  omega

/-- No year behind the first estimate is found. -/
theorem year_le (t : ℕ) : (rtc_to_tm t).tm_year ≤ 1970+(wrap (t/86400 : ℕ)).tdiv 365 := by
  have low := le_wrap (t/86400 : ℕ)
  have high := wrap_le (t/86400 : ℕ)
  unfold intMax at high
  rw [rtc_to_tm]
  generalize wrap (t/86400 : ℕ) = days at high low
  exact year_le_estimate low (by omega)

theorem weekday_wraps (low : 0 ≤ day) (high : day < 2^31-4) :
    (wrap (day+719163)).tmod 7 = (day+4)%7 ↔ day+719163 < 2^31 := by
  constructor
  · intro same
    by_contra long
    have wraps : wrap (day+719163) = -(2^32-719163-day) := by
      rw [wrap_over (by omega) (by omega)]
      omega
    rw [wraps,Int.neg_tmod,Int.tmod_eq_emod_of_nonneg (by omega)] at same
    omega
  · intro short
    rw [wrap_int (by omega) short,Int.tmod_eq_emod_of_nonneg (by omega)]
    omega

theorem calc_weekday_iff {tm : RtcTime} (valid : Valid tm) (since : 1970 ≤ tm.tm_year) (dayIs : day_number tm = day) (low : 0 ≤ day)
    (high : day < 2^31-4) : rtc_calc_weekday tm = some ((day+4)%7) ↔ day+719163 < 2^31 := by
  obtain ⟨twelve,mon⟩ := valid.month
  have sum : (if tm.tm_year%4 = 0 ∧ (tm.tm_year%100 ≠ 0 ∨ tm.tm_year%400 = 0) ∧ tm.tm_mon > 2 then (1 : ℤ) else 0)+
      ((tm.tm_year-1)*365+((tm.tm_year-1)/4-(tm.tm_year-1)/100+(tm.tm_year-1)/400)+month_offset.getD (tm.tm_mon-1).toNat 0+tm.tm_mday) =
      day+719163 := by
    rw [← dayIs,day_number,mon]
    have leap : is_leap_year tm.tm_year = true ↔ tm.tm_year%4 = 0 ∧ tm.tm_year%100 ≠ 0 ∨ tm.tm_year%400 = 0 := by simp [is_leap_year]
    generalize (tm.tm_mon-1).toNat = month at twelve
    unfold year_start month_start rtc_month_days LEAPS_THRU_END_OF
    interval_cases month <;> simp [range_succ,rtc_days_in_month,month_offset,leap] <;> try split_ifs
    all_goals omega
  unfold rtc_calc_weekday
  simp only
  rw [if_neg (by omega),sum,Option.some_inj,weekday_wraps low high]

theorem weekday_iff {t : ℕ} (small : t/86400 < 2^31-4) :
    rtc_calc_weekday (rtc_to_tm t) = some (rtc_to_tm t).tm_wday ↔ t/86400+719163 < 2^31 := by
  obtain ⟨valid,since,day⟩ := to_tm_spec (show t/86400 < 2^31 by omega)
  have wday : (rtc_to_tm t).tm_wday = ((t/86400 : ℕ)+4)%7 := by
    have here : wrap (t/86400 : ℕ) = (t/86400 : ℕ) := wrap_of_int (by unfold intMax; omega)
    rw [rtc_to_tm]
    simp only
    rw [here,wrap_int (by omega) (by omega),Int.tmod_eq_emod_of_nonneg (by omega)]
  rw [wday,calc_weekday_iff valid since day (Int.natCast_nonneg _) (by omega)]
  omega

theorem mktime_to_tm {t : ℕ} (small : t/86400 < 2^31) : rtc_mktime (rtc_to_tm t) = t := by
  obtain ⟨valid,since,day⟩ := to_tm_spec small
  have inside := valid.in_year
  rw [mktime_days valid since (by unfold year_start LEAPS_THRU_END_OF at inside; omega),day,second_to_tm]
  omega

/-- Seconds that are negative as a number of 64 bits. -/
theorem shifted_seconds {day second : ℤ} (low : 0 ≤ second) (high : second < 86400) (late : 2^31 ≤ day) (bound : day < 2^32) :
    ((((((day-2^32)*86400+second)%2^64).toNat%86400 : ℕ)) : ℤ) ≠ second := by
  have sum : ((day-2^32)*86400+second)%2^64 = (day-2^32)*86400+second+2^64 := by
    rw [← Int.add_emod_right]
    exact Int.emod_eq_of_lt (by omega) (by omega)
  rw [sum]
  omega

theorem to_tm_mktime_iff (valid : Valid d) (since : 1970 ≤ d.tm_year) :
    SameTime (rtc_to_tm (rtc_mktime d)) d ↔ day_number d < 2^31 := by
  have inside := valid.in_year
  have second := valid.second
  have lengths : 365 ≤ year_length d.tm_year ∧ year_length d.tm_year ≤ 366 := by
    unfold year_length
    split_ifs <;> omega
  constructor
  · intro same
    by_contra late
    have year := year_le (rtc_mktime d)
    rw [same.year] at year
    have high := wrap_le (rtc_mktime d/86400 : ℕ)
    unfold intMax at high
    have quotient := Int.mul_tdiv_add_tmod (wrap (rtc_mktime d/86400 : ℕ)) 365
    have rest := Int.lt_tmod_of_pos (wrap (rtc_mktime d/86400 : ℕ)) (show (0 : ℤ) < 365 by omega)
    unfold year_start LEAPS_THRU_END_OF at inside
    obtain ⟨first,low,high',time⟩ := mktime_eq valid since
    have below : d.tm_year ≤ 5885487 := by omega
    by_cases int : first*365 < 2^31
    · -- the number of the day is negative as an `int`
      rw [wrap_int (by omega) int,Int.sub_self,Int.add_zero,Int.emod_eq_of_lt (by omega) (by omega)] at time
      have days : ((rtc_mktime d/86400 : ℕ) : ℤ) = day_number d := by
        rw [time]
        omega
      rw [days,wrap_over (by omega) (by omega)] at year quotient rest
      omega
    · -- the days times 365 are no `int`, and the seconds of the day change with the sum
      rw [wrap_over (by omega) (by omega),show day_number d+(first*365-2^32-first*365) = day_number d-2^32 by omega] at time
      have seconds := second_to_tm (rtc_mktime d)
      rw [second_of,same.hour,same.min,same.sec,← second_of,time] at seconds
      exact shifted_seconds second.1 second.2 (by omega) (by omega) seconds.symm
  · intro int
    have time := mktime_days valid since (by unfold year_start LEAPS_THRU_END_OF at inside; omega)
    have start : 0 ≤ day_number d := by
      unfold year_start LEAPS_THRU_END_OF at inside
      omega
    have days : ((rtc_mktime d/86400 : ℕ) : ℤ) = day_number d ∧ ((rtc_mktime d%86400 : ℕ) : ℤ) = second_of d := by
      rw [time]
      omega
    obtain ⟨valid',-,day'⟩ := @to_tm_spec (rtc_mktime d) (by omega)
    exact same_time valid' valid (day'.trans days.1) ((second_to_tm _).trans days.2)

/-- A number of seconds comes back from its date, and with it the weekday if the number of the day
    since the year 1 is an `int`; a date comes back if the number of its day is one. -/
theorem dates_inverse_iff {t : ℕ} (small : t/86400 < 2^31-4) {d : RtcTime} (valid : Valid d) (since : 1970 ≤ d.tm_year) :
    (Valid (rtc_to_tm t) ∧ rtc_mktime (rtc_to_tm t) = t ∧ rtc_calc_weekday (rtc_to_tm t) = some (rtc_to_tm t).tm_wday ↔
      t/86400+719163 < 2^31) ∧
    (SameTime (rtc_to_tm (rtc_mktime d)) d ↔ day_number d < 2^31) := by
  refine ⟨⟨?_,?_⟩,to_tm_mktime_iff valid since⟩
  · rintro ⟨-,-,weekday⟩
    exact (weekday_iff small).mp weekday
  · intro int
    exact ⟨(to_tm_spec (by omega)).1,mktime_to_tm (by omega),(weekday_iff small).mpr int⟩

/-- The last second of February 2000. -/
def leap_day : RtcTime := ⟨59,59,23,29,2,2000,2,60,0⟩

theorem leap_day_inverse : rtc_mktime (rtc_to_tm 951868799) = 951868799 ∧ SameTime (rtc_to_tm (rtc_mktime leap_day)) leap_day := by
  have valid : Valid leap_day := ⟨by decide,by decide,by decide,by decide,by decide,by decide⟩
  have both := dates_inverse_iff (t := 951868799) (by decide) valid (by decide)
  exact ⟨(both.1.mpr (by decide)).2.1,both.2.mpr (by decide)⟩

/-- The last number of a day that is asked for has another weekday. -/
theorem last_day_differs : 185542586755200/86400 < 2^31-4 ∧
    rtc_calc_weekday (rtc_to_tm 185542586755200) ≠ some (rtc_to_tm 185542586755200).tm_wday :=
  ⟨by decide,fun same => absurd ((weekday_iff (by decide)).mp same) (by decide)⟩

end UBoot.RtcDates
