import Mathlib.Data.Nat.Log
import EmeraldExchange.Iptv.Xmltv
import EmeraldExchange.Lib.Civil
import EmeraldExchange.Lib.Decimal

/-!
# XMLTV times

`xmltv_time_to_iso` in `crates/iptv/src/xmltv.rs`: a time such as `20261016123000 +0530` is
written in UTC. It is read by the positions of its bytes, from the front for the date and from
the back for the offset.

The sign of the offset is five bytes before the end, and the slice that begins there is a panic
where these bytes begin inside a character. Up to that, the function is exact
(`exact_iff`): it answers for the times of its grammar only
(`Spells`), and what it writes (`Denotes`) is their
instant.
-/

namespace EmeraldExchange.Iptv

open Decimal

/-! ### The source -/

/-- The number of a civil date, with years that begin in March. -/
def daysFromCivil (y m d : ℤ) : ℤ :=
  let y := if m ≤ 2 then y - 1 else y
  let era := y / 400
  let yoe := y - era * 400
  let doy := (153 * (if m > 2 then m - 3 else m + 9) + 2) / 5 + d - 1
  let doe := yoe * 365 + yoe / 4 - yoe / 100 + doy
  era * 146097 + doe - 719468

def civilFromDays (z : ℤ) : Civil.Date :=
  let z := z + 719468
  let era := z / 146097
  let doe := z - era * 146097
  let yoe := (doe - doe / 1460 + doe / 36524 - doe / 146096) / 365
  let doy := doe - (365 * yoe + yoe / 4 - yoe / 100)
  let mp := (5 * doy + 2) / 153
  let d := doy - (153 * mp + 2) / 5 + 1
  let m := if mp < 10 then mp + 3 else mp - 9
  ⟨yoe + era * 400 + (if m ≤ 2 then 1 else 0), m, d⟩

/-- The digits of a number, with zeros in front up to a width. -/
def pushDigits (value width : ℕ) : List Char :=
  let digits := Nat.log 10 value + 1
  List.replicate (width - digits) '0' ++
    (List.range digits).reverse.map fun i => Nat.digitChar (value / 10 ^ i % 10)

/-- `u8::is_ascii_digit`. -/
def isAsciiDigit (b : UInt8) : Bool := 0x30 ≤ b && b ≤ 0x39

/-- `&s[i..j]`, where both are at the beginning of a character or at the end. -/
def slice (s : List Char) (i j : ℕ) : Option (List Char) := do
  let (front, _) ← Utf8.cutAt s j
  let (_, part) ← Utf8.cutAt front i
  return part

/-- `s[i..j].parse::<i64>().unwrap()`. -/
def num (s : List Char) (i j : ℕ) : Option ℤ := (slice s i j).bind Decimal.integer

/-- The text of an instant, as `xmltv_time_to_iso` writes it. -/
def isoText (secs : ℤ) : List Char :=
  let date := civilFromDays (secs / 86400)
  let t := secs % 86400
  let year :=
    if 0 ≤ date.year ∧ date.year ≤ 9999 then pushDigits date.year.toNat 4
    else (if date.year < 0 then '-' else '+') :: pushDigits date.year.natAbs 6
  year ++ ([('-', date.month), ('-', date.day), ('T', t / 3600), (':', t % 3600 / 60),
    (':', t % 60)].flatMap fun p => p.1 :: pushDigits p.2.toNat 2) ++ ['.', '0', '0', '0', 'Z']

/-- The seconds of a time, from its bytes and the first byte of its offset. -/
def secsOf (s : List Char) (plus : Bool) : Option ℤ := do
  let len := (Utf8.encode s).length
  let year ← num s 0 4
  let year := if year ≤ 99 then year + 1900 else year
  let month ← num s 4 6
  let month0 := month - 1
  let day ← num s 6 8
  let days := daysFromCivil (year + month0 / 12) (month0 % 12 + 1) 1 + day - 1
  let sign : ℤ := if plus then 1 else -1
  let offsetHour ← num s (len - 4) (len - 2)
  let offsetMinute ← num s (len - 2) len
  let offsetMin := offsetHour * 60 + offsetMinute
  let hour ← num s 8 10
  let minute ← num s 10 12
  let second ← num s 12 14
  return days * 86400 + hour * 3600 + minute * 60 + second - sign * offsetMin * 60

/-- **Read a time**: nothing where a slice or a number is a panic, and otherwise the time in UTC,
if the text is one. -/
def xmltvTimeToIso (s : List Char) : Option (Option (List Char)) :=
  let s := trim s
  let b := Utf8.encode s
  if b.length < 19 ∨ ¬(b.take 14).all isAsciiDigit then some none
  else
    (slice s (b.length - 5) b.length).bind fun off =>
      let ob := Utf8.encode off
      if ¬(ob.head? = some 0x2b ∨ ob.head? = some 0x2d) ∨ ¬ob.tail.all isAsciiDigit then some none
      else
        (slice s 14 (b.length - 5)).bind fun blank =>
          if ¬blank.all jsWs then some none
          else (secsOf s (ob.head? = some 0x2b)).map fun secs => some (isoText secs)

/-! ### The calendar -/

theorem eraDays_eq (y : ℤ) :
    y / 400 * 146097 + ((y - y / 400 * 400) * 365 + (y - y / 400 * 400) / 4 -
      (y - y / 400 * 400) / 100) = 365 * y + y / 4 - y / 100 + y / 400 := by
  have h4 : (y - y / 400 * 400) / 4 = y / 4 - 100 * (y / 400) := by omega
  have h100 : (y - y / 400 * 400) / 100 = y / 100 - 4 * (y / 400) := by omega
  rw [h4, h100]
  generalize y / 4 = a
  generalize y / 100 = b
  generalize y / 400 = era
  omega

/-- **The number of a date is the one of the calendar.** -/
theorem daysFromCivil_eq (y : ℤ) {m : ℤ} (d : ℤ) (h1 : 1 ≤ m) (h12 : m ≤ 12) :
    daysFromCivil y m d = Civil.day ⟨y, m, d⟩ := by
  have hmonth : (153 * (if m > 2 then m - 3 else m + 9) + 2) / 5 =
      (367 * m - 362) / 12 + (if m ≤ 2 then 306 else -61) := by
    interval_cases m <;> rfl
  simp only [daysFromCivil, Civil.day, Civil.daysBefore]
  rw [hmonth]
  generalize (367 * m - 362) / 12 = months
  by_cases hm : m ≤ 2
  · have hdays := eraDays_eq (y - 1)
    simp only [hm, if_true]
    generalize (y - 1) / 400 * 146097 = eras at hdays ⊢
    generalize (y - 1 - (y - 1) / 400 * 400) * 365 + (y - 1 - (y - 1) / 400 * 400) / 4 -
      (y - 1 - (y - 1) / 400 * 400) / 100 = rest at hdays ⊢
    generalize 365 * (y - 1) + (y - 1) / 4 - (y - 1) / 100 + (y - 1) / 400 = before at hdays ⊢
    omega
  · -- a leap day of the year itself is before March
    have hdays := eraDays_eq y
    have hleaps := Civil.leaps_eq_pred_add y
    simp only [hm, if_false]
    generalize y / 400 * 146097 = eras at hdays ⊢
    generalize (y - y / 400 * 400) * 365 + (y - y / 400 * 400) / 4 -
      (y - y / 400 * 400) / 100 = rest at hdays ⊢
    generalize y / 4 = a₁ at hdays hleaps
    generalize y / 100 = a₂ at hdays hleaps
    generalize y / 400 = a₃ at hdays hleaps
    generalize (y - 1) / 4 = b₁ at hleaps ⊢
    generalize (y - 1) / 100 = b₂ at hleaps ⊢
    generalize (y - 1) / 400 = b₃ at hleaps ⊢
    split_ifs at hleaps ⊢ <;> omega

/-- The date of a year that begins in March, with the months counted from zero. -/
def ofMarch (y mp d : ℤ) : Civil.Date :=
  if mp < 10 then ⟨y, mp + 3, d⟩ else ⟨y + 1, mp - 9, d⟩

theorem daysFromCivil_ofMarch (y : ℤ) {mp : ℤ} (d : ℤ) (h0 : 0 ≤ mp) (h11 : mp ≤ 11) :
    daysFromCivil (ofMarch y mp d).year (ofMarch y mp d).month (ofMarch y mp d).day =
      365 * y + y / 4 - y / 100 + y / 400 + (153 * mp + 2) / 5 + d - 1 - 719468 := by
  unfold ofMarch daysFromCivil
  by_cases hmp : mp < 10
  · simp only [hmp, if_true, show ¬mp + 3 ≤ 2 by omega, show mp + 3 > 2 by omega, if_false]
    omega
  · simp only [hmp, if_false, show mp - 9 ≤ 2 by omega, show ¬mp - 9 > 2 by omega, if_true]
    omega

theorem yoe_eq {doe b j u w : ℤ} (h : Civil.CycleDay doe b j u w) :
    (doe - doe / 1460 + doe / 36524 - doe / 146096) / 365 = 100 * b + 4 * j + u := by
  obtain ⟨rfl, ⟨hb, hb'⟩, ⟨hj, hj'⟩, ⟨hu, hu'⟩, hw, hw'⟩ := h
  by_cases hlast : b = 3 ∧ j = 24 ∧ w = 365
  · -- the last day of the cycle
    obtain ⟨rfl, rfl, rfl⟩ := hlast
    obtain rfl : u = 3 := by omega
    rfl
  · have hcentury : (36524 * b + 1461 * j + 365 * u + w) / 36524 = b := by omega
    have hcycle : (36524 * b + 1461 * j + 365 * u + w) / 146096 = 0 := by omega
    -- each four years have a day more than four times 365, and the last year may have it
    obtain ⟨e, he, hnonneg, hlt⟩ : ∃ e,
        (36524 * b + 1461 * j + 365 * u + w) / 1460 = 25 * b + j + e ∧ 0 ≤ w - e ∧ w - e < 365 :=
      ⟨(24 * b + j + 365 * u + w) / 1460, by omega, by omega, by omega⟩
    rw [hcentury, hcycle, he]
    omega

theorem doy_eq {doe b j u w : ℤ} (h : Civil.CycleDay doe b j u w) :
    doe - (365 * (100 * b + 4 * j + u) + (100 * b + 4 * j + u) / 4 - (100 * b + 4 * j + u) / 100) =
      w := by
  obtain ⟨rfl, ⟨hb, hb'⟩, ⟨hj, hj'⟩, ⟨hu, hu'⟩, -⟩ := h
  omega

/-- A day of a year that begins in March, by month and day. -/
structure MonthDay (w mp d : ℤ) : Prop where
  eq : (153 * mp + 2) / 5 + d - 1 = w
  first : 0 ≤ mp
  last : mp ≤ 11
  one_le : 1 ≤ d
  le : d ≤ (153 * (mp + 1) + 2) / 5 - (153 * mp + 2) / 5

theorem monthDay_mk {w : ℤ} (h0 : 0 ≤ w) (h1 : w ≤ 365) :
    MonthDay w ((5 * w + 2) / 153) (w - (153 * ((5 * w + 2) / 153) + 2) / 5 + 1) := by
  constructor <;> omega

theorem civilFromDays_cases (z : ℤ) : ∃ era b j u w mp d,
    Civil.CycleDay (z + 719468 - era * 146097) b j u w ∧ MonthDay w mp d ∧
      civilFromDays z = ofMarch (100 * b + 4 * j + u + era * 400) mp d := by
  obtain ⟨b, j, u, w, hcycle⟩ := Civil.exists_cycleDay
    (show 0 ≤ z + 719468 - (z + 719468) / 146097 * 146097 by omega) (by omega)
  have hmonth := monthDay_mk hcycle.day.1 (by have := hcycle.day; omega)
  refine ⟨_, b, j, u, w, _, _, hcycle, hmonth, ?_⟩
  have hfirst := hmonth.first
  have hlast := hmonth.last
  simp only [civilFromDays, yoe_eq hcycle, doy_eq hcycle, ofMarch]
  by_cases hmp : (5 * w + 2) / 153 < 10
  · simp only [hmp, if_true, show ¬(5 * w + 2) / 153 + 3 ≤ 2 by omega, if_false, add_zero]
  · simp only [hmp, if_false, show (5 * w + 2) / 153 - 9 ≤ 2 by omega, if_true]

/-- **The date of a number has that number.** -/
theorem day_civilFromDays (z : ℤ) : Civil.day (civilFromDays z) = z := by
  obtain ⟨era, b, j, u, w, mp, d, hcycle, hmonth, heq⟩ := civilFromDays_cases z
  obtain ⟨hz, hb, hj, hu, -⟩ := hcycle
  obtain ⟨hw, h0, h11, -, -⟩ := hmonth
  have hdays := daysFromCivil_ofMarch (100 * b + 4 * j + u + era * 400) d h0 h11
  rw [daysFromCivil_eq _ _ (by unfold ofMarch; split_ifs <;> simp only <;> omega)
    (by unfold ofMarch; split_ifs <;> simp only <;> omega)] at hdays
  rw [heq]
  exact hdays.trans (by omega)

/-- **The date of a number is one of the calendar.** -/
theorem valid_civilFromDays (z : ℤ) : (civilFromDays z).Valid := by
  obtain ⟨era, b, j, u, w, mp, d, hcycle, hmonth, heq⟩ := civilFromDays_cases z
  obtain ⟨-, hb, hj, hu, -, hlast⟩ := hcycle
  obtain ⟨hw, h0, h11, h1, hle⟩ := hmonth
  rw [heq, ofMarch]
  by_cases hfeb : mp = 11
  · -- only a leap year has the day 365
    subst hfeb
    refine ⟨by simp, by simp, h1, ?_⟩
    simp only [show ¬(11 : ℤ) < 10 by omega, if_false, Civil.monthDays, Civil.IsLeap]
    split_ifs <;> omega
  · obtain h10 : mp ≤ 10 := by omega
    clear hlast hw
    interval_cases mp <;> refine ⟨by simp, by simp, h1, ?_⟩ <;> simp [Civil.monthDays] <;> omega

/-! ### The text of an instant -/

theorem numeral_digits (value k : ℕ) :
    Numeral ((List.range k).reverse.map fun i => Nat.digitChar (value / 10 ^ i % 10)) k
      (value % 10 ^ k : ℕ) := by
  induction k with
  | zero => exact ⟨rfl, rfl, by simp [Nat.mod_one]⟩
  | succ k ih =>
    have hcons := ih.cons (Nat.mod_lt (value / 10 ^ k) (by decide : 0 < 10))
    rw [List.range_succ, List.reverse_append]
    rw [show value % 10 ^ (k + 1) = 10 ^ k * (value / 10 ^ k % 10) + value % 10 ^ k by
      rw [Nat.pow_succ, Nat.mod_mul, Nat.add_comm]]
    exact_mod_cast hcons

/-- **A number is written with the digits of a width** that it has room in. -/
theorem numeral_pushDigits {value width : ℕ} (hwidth : 0 < width) (h : value < 10 ^ width) :
    Numeral (pushDigits value width) width value := by
  have hlog : Nat.log 10 value + 1 ≤ width := Nat.log_lt_of_lt_pow' hwidth.ne' h
  have hlt : value < 10 ^ (Nat.log 10 value + 1) := Nat.lt_pow_succ_log_self (by decide) value
  have hnumeral := (numeral_digits value (Nat.log 10 value + 1)).zeros
    (width - (Nat.log 10 value + 1))
  rwa [Nat.mod_eq_of_lt hlt, Nat.sub_add_cancel hlog] at hnumeral

/-- The text of a year: four digits, or a sign and six. -/
inductive YearText : List Char → ℤ → Prop
  | four {ds : List Char} {y : ℤ} (h : Numeral ds 4 y) : YearText ds y
  | after {ds : List Char} {y : ℤ} (h : Numeral ds 6 y) (hy : 9999 < y) : YearText ('+' :: ds) y
  | before {ds : List Char} {y : ℤ} (h : Numeral ds 6 (-y)) (hy : y < 0) : YearText ('-' :: ds) y

/-- **A time in UTC**: a date of the calendar and a time of its day, which are so many seconds after
the beginning of 1970. -/
def Denotes (out : List Char) (secs : ℤ) : Prop :=
  ∃ year month day hour minute second date h mi s, date.Valid ∧ YearText year date.year ∧
    Numeral month 2 date.month ∧ Numeral day 2 date.day ∧ Numeral hour 2 h ∧ Numeral minute 2 mi ∧
    Numeral second 2 s ∧ h < 24 ∧ mi < 60 ∧ s < 60 ∧
    out = year ++ '-' :: month ++ '-' :: day ++ 'T' :: hour ++ ':' :: minute ++ ':' :: second ++
      ['.', '0', '0', '0', 'Z'] ∧
    secs = Civil.day date * 86400 + h * 3600 + mi * 60 + s

theorem numeral_two {n : ℤ} (h0 : 0 ≤ n) (h : n < 100) : Numeral (pushDigits n.toNat 2) 2 n := by
  have hnumeral : Numeral (pushDigits n.toNat 2) 2 n.toNat :=
    numeral_pushDigits (by decide) (by omega)
  rwa [Int.toNat_of_nonneg h0] at hnumeral

theorem yearText_isoText {y : ℤ} (h : -1000000 < y ∧ y < 1000000) :
    YearText (if 0 ≤ y ∧ y ≤ 9999 then pushDigits y.toNat 4
      else (if y < 0 then '-' else '+') :: pushDigits y.natAbs 6) y := by
  by_cases hfour : 0 ≤ y ∧ y ≤ 9999
  · rw [if_pos hfour]
    have hnumeral : Numeral (pushDigits y.toNat 4) 4 y.toNat :=
      numeral_pushDigits (by decide) (by omega)
    rw [Int.toNat_of_nonneg hfour.1] at hnumeral
    exact .four hnumeral
  · rw [if_neg hfour]
    have hnumeral : Numeral (pushDigits y.natAbs 6) 6 y.natAbs :=
      numeral_pushDigits (by decide) (by omega)
    by_cases hneg : y < 0
    · rw [if_pos hneg]
      rw [show (y.natAbs : ℤ) = -y by omega] at hnumeral
      exact .before hnumeral hneg
    · rw [if_neg hneg]
      rw [show (y.natAbs : ℤ) = y by omega] at hnumeral
      exact .after hnumeral (by omega)

/-- **What is written is the instant.** -/
theorem denotes_isoText {secs : ℤ}
    (h : -1000000 < (civilFromDays (secs / 86400)).year ∧
      (civilFromDays (secs / 86400)).year < 1000000) : Denotes (isoText secs) secs := by
  have hvalid := valid_civilFromDays (secs / 86400)
  have hdays : (civilFromDays (secs / 86400)).day ≤ 31 := by
    have := hvalid.day_le
    unfold Civil.monthDays at this
    split_ifs at this <;> omega
  refine ⟨_, _, _, _, _, _, civilFromDays (secs / 86400), secs % 86400 / 3600,
    secs % 86400 % 3600 / 60, secs % 86400 % 60, hvalid, yearText_isoText h,
    numeral_two (by have := hvalid.one_le_month; omega) (by have := hvalid.month_le; omega),
    numeral_two (by have := hvalid.one_le_day; omega) (by omega),
    numeral_two (by omega) (by omega), numeral_two (by omega) (by omega),
    numeral_two (by omega) (by omega), by omega, by omega, by omega, ?_, ?_⟩
  · simp [isoText]
  · rw [day_civilFromDays]
    omega

/-! ### The grammar -/

structure Timestamp where
  year : ℤ
  month : ℤ
  day : ℤ
  hour : ℤ
  minute : ℤ
  second : ℤ
  plus : Bool
  offsetHour : ℤ
  offsetMinute : ℤ

def signOf (plus : Bool) : Char := if plus then '+' else '-'

/-- **A time**: its date and its time of day in fourteen digits, white space, if any, and its
offset, a sign and four digits. -/
def Spells (s : List Char) (t : Timestamp) : Prop :=
  ∃ year month day hour minute second blank offsetHour offsetMinute,
    s = year ++ (month ++ (day ++ (hour ++ (minute ++ (second ++ (blank ++
      signOf t.plus :: (offsetHour ++ offsetMinute))))))) ∧
    Numeral year 4 t.year ∧ Numeral month 2 t.month ∧ Numeral day 2 t.day ∧
    Numeral hour 2 t.hour ∧ Numeral minute 2 t.minute ∧ Numeral second 2 t.second ∧
    blank.all jsWs = true ∧ Numeral offsetHour 2 t.offsetHour ∧
    Numeral offsetMinute 2 t.offsetMinute

theorem encode_signOf (plus : Bool) (ds : List Char) :
    Utf8.encode (signOf plus :: ds) = (if plus then 0x2b else 0x2d) :: Utf8.encode ds := by
  cases plus <;> rfl

namespace Timestamp

variable (t : Timestamp)

/-- A year of two digits is one of the twentieth century. -/
def fullYear : ℤ := if t.year ≤ 99 then 1900 + t.year else t.year

/-- The months since the beginning of the year zero; the months of a year may be too many or too
few. -/
def months : ℤ := 12 * t.fullYear + (t.month - 1)

/-- The seconds of the civil time. So may be the days of the month. -/
def civil : ℤ :=
  (Civil.day ⟨t.months / 12, t.months % 12 + 1, 1⟩ + (t.day - 1)) * 86400 + t.hour * 3600 +
    t.minute * 60 + t.second

def offset : ℤ :=
  (if t.plus then 1 else -1) * (t.offsetHour * 60 + t.offsetMinute) * 60

/-- **The instant**: the civil time minus the offset. -/
def instant : ℤ := t.civil - t.offset

end Timestamp

/-! ### Slices -/

theorem slice_append {x y z : List Char} {i j : ℕ} (hi : (Utf8.encode x).length = i)
    (hj : (Utf8.encode (x ++ y)).length = j) : slice (x ++ (y ++ z)) i j = some y := by
  have hto : Utf8.cutAt (x ++ (y ++ z)) j = some (x ++ y, z) :=
    Utf8.cutAt_eq_some.mpr ⟨(List.append_assoc ..).symm, hj⟩
  have hfrom : Utf8.cutAt (x ++ y) i = some (x, y) := Utf8.cutAt_eq_some.mpr ⟨rfl, hi⟩
  simp only [slice, hto, hfrom, Option.bind_eq_bind, Option.bind_some]
  rfl

theorem encode_digits {ds : List Char} (h : ds.all Char.isDigit = true) :
    Utf8.encode ds = ds.map fun c => UInt8.ofNat c.toNat :=
  Utf8.encode_ascii fun c hc => by
    have := Char.isDigit_iff_toNat.mp (List.all_eq_true.mp h c hc)
    exact lt_of_le_of_lt this.2 (by decide)

theorem length_encode_digits {ds : List Char} (h : ds.all Char.isDigit = true) :
    (Utf8.encode ds).length = ds.length := by
  rw [encode_digits h, List.length_map]

theorem length_encode_numeral {ds : List Char} {width : ℕ} {n : ℤ} (h : Numeral ds width n) :
    (Utf8.encode ds).length = width := by
  rw [length_encode_digits h.digits, h.length]

theorem isAsciiDigit_ofNat {c : Char} (h : c.isDigit = true) :
    isAsciiDigit (UInt8.ofNat c.toNat) = true := by
  have hc := Char.isDigit_iff_toNat.mp h
  rw [show '0'.toNat = 48 from rfl, show '9'.toNat = 57 from rfl] at hc
  have hnat : (UInt8.ofNat c.toNat).toNat = c.toNat := UInt8.toNat_ofNat_of_lt' (by
    show c.toNat < 256
    omega)
  simp only [isAsciiDigit, Bool.and_eq_true, decide_eq_true_eq, UInt8.le_iff_toNat_le, hnat]
  exact ⟨hc.1, hc.2⟩

theorem all_isAsciiDigit {ds : List Char} (h : ds.all Char.isDigit = true) :
    (Utf8.encode ds).all isAsciiDigit = true := by
  rw [encode_digits h, List.all_map, List.all_eq_true]
  exact fun c hc => isAsciiDigit_ofNat (List.all_eq_true.mp h c hc)

/-- **Bytes that are digits are characters that are.** -/
theorem exists_digits {s : List Char} {bytes rest : List UInt8} (hs : Utf8.encode s = bytes ++ rest)
    (h : bytes.all isAsciiDigit = true) :
    ∃ x y, s = x ++ y ∧ x.length = bytes.length ∧ x.all Char.isDigit = true ∧
      Utf8.encode y = rest := by
  have hdigit : ∀ b ∈ bytes, 48 ≤ b.toNat ∧ b.toNat ≤ 57 := by
    rintro b hb
    have := List.all_eq_true.mp h b hb
    simpa [isAsciiDigit, UInt8.le_iff_toNat_le] using this
  obtain ⟨x, y, rfl, hmap, hy⟩ := Utf8.exists_prefix_of_encode hs fun b hb => by
    rw [UInt8.lt_iff_toNat_lt]
    exact lt_of_le_of_lt (hdigit b hb).2 (by decide)
  refine ⟨x, y, rfl, by simpa using congrArg List.length hmap, ?_, hy⟩
  rw [List.all_eq_true]
  rintro c hc
  obtain ⟨b, hb, heq⟩ := List.mem_map.mp (hmap ▸ List.mem_map_of_mem (f := Char.toNat) hc)
  have := hdigit b hb
  rw [Char.isDigit_iff_toNat, ← heq]
  exact this

theorem num_of_numeral {s x ds z : List Char} {w i j : ℕ} {n : ℤ} (hs : s = x ++ (ds ++ z))
    (h : Numeral ds w n) (hw : 0 < w) (hi : (Utf8.encode x).length = i) (hj : i + w = j) :
    num s i j = some n := by
  have hend : (Utf8.encode (x ++ ds)).length = j := by
    rw [Utf8.encode_append, List.length_append, hi, length_encode_numeral h, hj]
  rw [hs, num, slice_append hi hend, Option.bind_some, h.integer hw]

/-! ### The reading -/

theorem daysFromCivil_months (t : Timestamp) :
    daysFromCivil (t.fullYear + (t.month - 1) / 12) ((t.month - 1) % 12 + 1) 1 + t.day - 1 =
      Civil.day ⟨t.months / 12, t.months % 12 + 1, 1⟩ + (t.day - 1) := by
  rw [daysFromCivil_eq _ _ (by omega) (by omega), Timestamp.months]
  rw [show (12 * t.fullYear + (t.month - 1)) / 12 = t.fullYear + (t.month - 1) / 12 by omega,
    show (12 * t.fullYear + (t.month - 1)) % 12 = (t.month - 1) % 12 by omega]
  omega

theorem secsOf_of_nums {s : List Char} {t : Timestamp} {len : ℕ}
    (hlen : (Utf8.encode s).length = len) (hyear : num s 0 4 = some t.year)
    (hmonth : num s 4 6 = some t.month) (hday : num s 6 8 = some t.day)
    (hhour : num s 8 10 = some t.hour) (hminute : num s 10 12 = some t.minute)
    (hsecond : num s 12 14 = some t.second) (hoh : num s (len - 4) (len - 2) = some t.offsetHour)
    (hom : num s (len - 2) len = some t.offsetMinute) : secsOf s t.plus = some t.instant := by
  have hfull : (if t.year ≤ 99 then t.year + 1900 else t.year) = t.fullYear := by
    rw [Timestamp.fullYear, Int.add_comm]
  simp only [secsOf, hlen, hyear, hmonth, hday, hhour, hminute, hsecond, hoh, hom,
    Option.bind_eq_bind, Option.bind_some, hfull, daysFromCivil_months]
  rfl

/-- The text is long enough, and begins with fourteen digits. -/
def Stamped (s : List Char) : Prop :=
  19 ≤ (Utf8.encode s).length ∧ ((Utf8.encode s).take 14).all isAsciiDigit = true

/-- A text that is cut behind fourteen digits and before its last five bytes. -/
structure Layout (s x blank off : List Char) : Prop where
  eq : s = x ++ (blank ++ off)
  length : x.length = 14
  digits : x.all Char.isDigit = true
  off : (Utf8.encode off).length = 5

theorem Layout.length_eq {s x blank off : List Char} (h : Layout s x blank off) :
    (Utf8.encode s).length = 14 + (Utf8.encode blank).length + 5 := by
  rw [h.eq, Utf8.encode_append, Utf8.encode_append, List.length_append, List.length_append,
    length_encode_digits h.digits, h.length, h.off]
  omega

theorem Layout.stamped {s x blank off : List Char} (h : Layout s x blank off) : Stamped s := by
  refine ⟨by rw [h.length_eq]; omega, ?_⟩
  have hx : (Utf8.encode x).length = 14 := by rw [length_encode_digits h.digits, h.length]
  rw [h.eq, Utf8.encode_append, List.take_left' hx]
  exact all_isAsciiDigit h.digits

theorem Layout.slice_off {s x blank off : List Char} (h : Layout s x blank off) :
    slice s ((Utf8.encode s).length - 5) (Utf8.encode s).length = some off := by
  have hslice := slice_append (x := x ++ blank) (y := off) (z := []) rfl rfl
  rw [List.append_nil, List.append_assoc, ← h.eq] at hslice
  rw [← hslice]
  congr 1
  rw [h.length_eq, Utf8.encode_append, List.length_append, length_encode_digits h.digits, h.length]
  omega

theorem Layout.slice_blank {s x blank off : List Char} (h : Layout s x blank off) :
    slice s 14 ((Utf8.encode s).length - 5) = some blank := by
  have hx : (Utf8.encode x).length = 14 := by rw [length_encode_digits h.digits, h.length]
  have hlen := h.length_eq
  rw [h.eq] at hlen ⊢
  refine slice_append hx ?_
  rw [hlen, Utf8.encode_append, List.length_append, hx]
  omega

/-- **Where the last five bytes begin a character, there is such a cut.** -/
theorem exists_layout {s : List Char} (h : Stamped s)
    (hcut : (Utf8.cutAt s ((Utf8.encode s).length - 5)).isSome) :
    ∃ x blank off, Layout s x blank off := by
  obtain ⟨hlen, hdigits⟩ := h
  obtain ⟨⟨front, off⟩, hfront⟩ := Option.isSome_iff_exists.mp hcut
  obtain ⟨hs, hfrontLen⟩ := Utf8.cutAt_eq_some.mp hfront
  obtain ⟨x, y, hxy, hx, hxd, -⟩ :=
    exists_digits (List.take_append_drop 14 (Utf8.encode s)).symm hdigits
  rw [List.length_take, min_eq_left (by omega)] at hx
  have hxlen := length_encode_digits hxd
  have htotal := congrArg (fun t => (Utf8.encode t).length) hs
  simp only [Utf8.encode_append, List.length_append] at htotal
  rcases List.append_eq_append_iff.mp (hxy.symm.trans hs) with ⟨blank, hblank, hy⟩ | ⟨z, hz, hoff⟩
  · exact ⟨x, blank, off, by rw [hxy, hy], hx, hxd, by omega⟩
  · -- the digits are not longer than the front
    have hlens := congrArg (fun t => (Utf8.encode t).length) hz
    simp only [Utf8.encode_append, List.length_append] at hlens
    obtain rfl : z = [] := by
      cases z with
      | nil => rfl
      | cons c z =>
        rw [Utf8.length_encode_cons] at hlens
        have := c.utf8Size_pos
        omega
    rw [List.append_nil] at hz
    exact ⟨x, [], off, by rw [hz, List.nil_append]; exact hs, hx, hxd, by omega⟩

theorem xmltvTimeToIso_of_layout {s x blank off : List Char} (h : Layout (trim s) x blank off) :
    xmltvTimeToIso s =
      if ¬((Utf8.encode off).head? = some 0x2b ∨ (Utf8.encode off).head? = some 0x2d) ∨
          ¬(Utf8.encode off).tail.all isAsciiDigit then some none
      else if ¬blank.all jsWs then some none
      else (secsOf (trim s) ((Utf8.encode off).head? = some 0x2b)).map fun secs =>
        some (isoText secs) := by
  obtain ⟨hlen, hdigits⟩ := h.stamped
  simp only [xmltvTimeToIso]
  rw [if_neg (by rw [not_or, not_not]; exact ⟨not_lt.mpr hlen, hdigits⟩), h.slice_off,
    Option.bind_some, h.slice_blank, Option.bind_some]

/-! ### Times -/

/-- **The numbers of a time are read.** -/
theorem secsOf_spells {s : List Char} {t : Timestamp} (h : Spells s t) :
    secsOf s t.plus = some t.instant := by
  obtain ⟨y, mo, d, hh, mi, sec, blank, oh, om, hs, hyear, hmonth, hday, hhour, hminute, hsecond,
    -, hoh, hom⟩ := h
  obtain ⟨n, hn⟩ : ∃ n, (Utf8.encode blank).length = n := ⟨_, rfl⟩
  -- how many bytes each part has
  have hy := length_encode_numeral hyear
  have hmo := length_encode_numeral hmonth
  have hd := length_encode_numeral hday
  have hhh := length_encode_numeral hhour
  have hmi := length_encode_numeral hminute
  have hsec := length_encode_numeral hsecond
  have hsign : (Utf8.encode [signOf t.plus]).length = 1 := by rw [encode_signOf]; rfl
  have hlen : (Utf8.encode s).length = 19 + n := by
    rw [hs, ← List.singleton_append]
    simp only [Utf8.encode_append, List.length_append, hy, hmo, hd, hhh, hmi, hsec, hn, hsign,
      length_encode_numeral hoh, length_encode_numeral hom]
    omega
  refine secsOf_of_nums hlen
    (num_of_numeral (x := []) hs hyear (by decide) rfl rfl)
    (num_of_numeral (x := y) hs hmonth (by decide) hy rfl)
    (num_of_numeral (x := y ++ mo) (by simp [hs]; rfl) hday (by decide) ?_ rfl)
    (num_of_numeral (x := y ++ mo ++ d) (by simp [hs]; rfl) hhour (by decide) ?_ rfl)
    (num_of_numeral (x := y ++ mo ++ d ++ hh) (by simp [hs]; rfl) hminute (by decide) ?_ rfl)
    (num_of_numeral (x := y ++ mo ++ d ++ hh ++ mi) (by simp [hs]; rfl) hsecond (by decide) ?_ rfl)
    (num_of_numeral (x := y ++ mo ++ d ++ hh ++ mi ++ sec ++ blank ++ [signOf t.plus]) (z := om)
      (by simp [hs]) hoh (by decide) ?_ (by omega))
    (num_of_numeral (x := y ++ mo ++ d ++ hh ++ mi ++ sec ++ blank ++ [signOf t.plus] ++ oh)
      (z := []) (by simp [hs]) hom (by decide) ?_ (by omega))
  all_goals
    simp only [Utf8.encode_append, List.length_append, hy, hmo, hd, hhh, hmi, hsec, hn, hsign,
      length_encode_numeral hoh]
    try omega

theorem layout_of_spells {s : List Char} {t : Timestamp} (h : Spells s t) :
    ∃ x blank ds, Layout s x blank (signOf t.plus :: ds) ∧ blank.all jsWs = true ∧
      ds.all Char.isDigit = true := by
  obtain ⟨y, mo, d, hh, mi, sec, blank, oh, om, hs, hyear, hmonth, hday, hhour, hminute, hsecond,
    hblank, hoh, hom⟩ := h
  have hoffset : (oh ++ om).all Char.isDigit = true := by
    rw [List.all_append, hoh.digits, hom.digits, Bool.and_self]
  refine ⟨y ++ mo ++ d ++ hh ++ mi ++ sec, blank, oh ++ om, ⟨by simp [hs], ?_, ?_, ?_⟩, hblank,
    hoffset⟩
  · simp only [List.length_append, hyear.length, hmonth.length, hday.length, hhour.length,
      hminute.length, hsecond.length]
  · simp only [List.all_append, hyear.digits, hmonth.digits, hday.digits, hhour.digits,
      hminute.digits, hsecond.digits, Bool.and_self]
  · rw [encode_signOf, List.length_cons, length_encode_digits hoffset, List.length_append,
      hoh.length, hom.length]

/-- **A text of that layout is a time.** -/
theorem spells_of_layout {s x blank ds : List Char} {plus : Bool}
    (h : Layout s x blank (signOf plus :: ds)) (hblank : blank.all jsWs = true)
    (hds : ds.all Char.isDigit = true) : ∃ t, Spells s t ∧ t.plus = plus := by
  have hlen : ds.length = 4 := by
    have := h.off
    rw [encode_signOf, List.length_cons, length_encode_digits hds] at this
    omega
  -- the parts are cut by their widths
  have hpart : ∀ {l : List Char} (i w : ℕ), l.all Char.isDigit = true → i + w ≤ l.length →
      Numeral ((l.drop i).take w) w (Nat.ofDigitChars 10 ((l.drop i).take w) 0) := by
    rintro l i w hl hle
    have hall : ((l.drop i).take w).all Char.isDigit = true := by
      rw [List.all_eq_true] at hl ⊢
      exact fun c hc => hl c (List.mem_of_mem_drop (List.mem_of_mem_take hc))
    have hnumeral := numeral_mk hall
    rwa [List.length_take, List.length_drop, min_eq_left (by omega)] at hnumeral
  have hx := h.length
  refine ⟨⟨_, _, _, _, _, _, plus, _, _⟩, ⟨_, _, _, _, _, _, blank, _, _, ?_,
    hpart 0 4 h.digits (by omega), hpart 4 2 h.digits (by omega), hpart 6 2 h.digits (by omega),
    hpart 8 2 h.digits (by omega), hpart 10 2 h.digits (by omega), hpart 12 2 h.digits (by omega),
    hblank, hpart 0 2 hds (by omega), hpart 2 2 hds (by omega)⟩, rfl⟩
  have hcut : ∀ (l : List Char) (i w : ℕ), l.drop i = (l.drop i).take w ++ l.drop (i + w) :=
    fun l i w => by rw [← List.drop_drop, List.take_append_drop]
  have hfront : x = (x.drop 0).take 4 ++ ((x.drop 4).take 2 ++ ((x.drop 6).take 2 ++
      ((x.drop 8).take 2 ++ ((x.drop 10).take 2 ++ ((x.drop 12).take 2 ++ x.drop 14))))) := by
    rw [← hcut x 12 2, ← hcut x 10 2, ← hcut x 8 2, ← hcut x 6 2, ← hcut x 4 2, ← hcut x 0 4]
    rfl
  have hback : ds = (ds.drop 0).take 2 ++ ((ds.drop 2).take 2 ++ ds.drop 4) := by
    rw [← hcut ds 2 2, ← hcut ds 0 2]
    rfl
  rw [List.drop_of_length_le hx.le, List.append_nil] at hfront
  rw [List.drop_of_length_le hlen.le, List.append_nil] at hback
  rw [h.eq, ← hback]
  conv_lhs => rw [hfront]
  simp only [List.append_assoc]

theorem exists_offset {off : List Char} {bytes : List UInt8} {b : UInt8}
    (h : Utf8.encode off = b :: bytes) (hb : b = 0x2b ∨ b = 0x2d)
    (hbytes : bytes.all isAsciiDigit = true) :
    ∃ ds, off = signOf (b = 0x2b) :: ds ∧ ds.all Char.isDigit = true := by
  obtain ⟨c, ds, rfl, hc, hds⟩ := Utf8.exists_of_encode h (by rcases hb with rfl | rfl <;> decide)
  obtain ⟨x, y, rfl, -, hx, hy⟩ := exists_digits (hds.trans (List.append_nil _).symm) hbytes
  obtain rfl : y = [] := Utf8.encode_injective hy
  refine ⟨x ++ [], ?_, by rwa [List.append_nil]⟩
  rcases hb with rfl | rfl
  · rw [Char.ext_iff.mpr (UInt32.toNat_inj.mp hc : c.val = '+'.val)]
    rfl
  · rw [Char.ext_iff.mpr (UInt32.toNat_inj.mp hc : c.val = '-'.val)]
    rfl

/-- **A time is read.** -/
theorem xmltvTimeToIso_of_spells {s : List Char} {t : Timestamp} (h : Spells (trim s) t) :
    xmltvTimeToIso s = some (some (isoText t.instant)) := by
  obtain ⟨x, blank, ds, hlayout, hblank, hds⟩ := layout_of_spells h
  have hsecs := secsOf_spells h
  rw [xmltvTimeToIso_of_layout hlayout, encode_signOf]
  have hplus : decide ((if t.plus = true then (0x2b : UInt8) else 0x2d) = 0x2b) = t.plus := by
    cases t.plus <;> rfl
  have hsign : (if t.plus = true then (0x2b : UInt8) else 0x2d) = 0x2b ∨
      (if t.plus = true then (0x2b : UInt8) else 0x2d) = 0x2d := by
    cases t.plus <;> decide
  simp only [List.head?_cons, Option.some.injEq, List.tail_cons, hsign, not_true_eq_false, false_or,
    all_isAsciiDigit hds, hblank, if_false, hplus, hsecs, Option.map_some]

/-- **What is not a time is not read**, where the last five bytes begin a character. -/
theorem spells_of_xmltvTimeToIso {s : List Char} {x blank off : List Char}
    (hlayout : Layout (trim s) x blank off) (h : xmltvTimeToIso s ≠ some none) :
    ∃ t, Spells (trim s) t := by
  rw [xmltvTimeToIso_of_layout hlayout] at h
  obtain ⟨b, bytes, hbytes⟩ := List.exists_cons_of_length_eq_add_one hlayout.off
  rw [hbytes] at h
  by_cases hoff : (b = 0x2b ∨ b = 0x2d) ∧ bytes.all isAsciiDigit = true
  · by_cases hblank : blank.all jsWs = true
    · obtain ⟨ds, rfl, hds⟩ := exists_offset hbytes hoff.1 hoff.2
      obtain ⟨t, ht, -⟩ := spells_of_layout hlayout hblank hds
      exact ⟨t, ht⟩
    · exact absurd (by simp [hblank]) h
  · refine absurd (if_pos ?_) h
    rw [List.head?_cons, Option.some.injEq, Option.some.injEq, List.tail_cons]
    exact not_and_or.mp hoff

/-! ### Exactness -/

/-- **The function is total and exact on a text**: it returns, with the instant of the time that
the text is, and with nothing where it is none. -/
def Exact (s : List Char) : Prop :=
  ∃ r, xmltvTimeToIso s = some r ∧
    (∀ t, Spells (trim s) t → ∃ out, r = some out ∧ Denotes out t.instant) ∧
    ((∀ t, ¬Spells (trim s) t) → r = none)

/-- The last five bytes begin a character, if they are looked at. -/
def OffsetOnCharacter (s : List Char) : Prop :=
  Stamped (trim s) → (Utf8.cutAt (trim s) ((Utf8.encode (trim s)).length - 5)).isSome = true

theorem year_instant {s : List Char} {t : Timestamp} (h : Spells s t) :
    -1000000 < (civilFromDays (t.instant / 86400)).year ∧
      (civilFromDays (t.instant / 86400)).year < 1000000 := by
  obtain ⟨y, mo, d, hh, mi, sec, blank, oh, om, -, hyear, hmonth, hday, hhour, hminute, hsecond,
    -, hoh, hom⟩ := h
  have hfull : 0 ≤ t.fullYear ∧ t.fullYear ≤ 9999 := by
    have := hyear.bounds
    rw [Timestamp.fullYear]
    split_ifs <;> omega
  have hmonths : -1 ≤ t.months ∧ t.months < 12 * 10010 := by
    have := hmonth.bounds
    rw [Timestamp.months]
    omega
  have hfirst := Civil.day_bounds ⟨t.months / 12, t.months % 12 + 1, 1⟩
    (by simp only; omega) (by simp only; omega) (by simp) (by simp)
  have hsecs : -100000000000 < t.instant ∧ t.instant < 1000000000000 := by
    have hd := hday.bounds
    have hhh := hhour.bounds
    have hmi := hminute.bounds
    have hsec := hsecond.bounds
    have hofh := hoh.bounds
    have hofm := hom.bounds
    rw [Timestamp.instant, Timestamp.civil, Timestamp.offset]
    simp only at hfirst
    split_ifs <;> omega
  have hvalid := valid_civilFromDays (t.instant / 86400)
  have hdate := Civil.day_bounds _ hvalid.one_le_month hvalid.month_le hvalid.one_le_day
    (hvalid.day_le.trans (Civil.monthDays_le _ _))
  rw [day_civilFromDays] at hdate
  omega

/-- **The function is total and exact on a text if and only if the five last bytes of the text, when
it is trimmed, begin a character**, or it has fewer than nineteen bytes or does not begin with
fourteen digits. -/
theorem exact_iff (s : List Char) : Exact s ↔ OffsetOnCharacter s := by
  constructor
  · rintro ⟨r, hr, -, -⟩ ⟨hlen, hdigits⟩
    by_contra hcut
    rw [Bool.not_eq_true, Option.isSome_eq_false_iff, Option.isNone_iff_eq_none] at hcut
    -- the slice is a panic
    have hpanic : slice (trim s) ((Utf8.encode (trim s)).length - 5)
        (Utf8.encode (trim s)).length = none := by
      have hall : Utf8.cutAt (trim s) (Utf8.encode (trim s)).length = some (trim s, []) :=
        Utf8.cutAt_eq_some.mpr ⟨(List.append_nil _).symm, rfl⟩
      simp only [slice, hall, hcut, Option.bind_eq_bind, Option.bind_some, Option.bind_none]
    simp only [xmltvTimeToIso] at hr
    rw [if_neg (by rw [not_or, not_not]; exact ⟨not_lt.mpr hlen, hdigits⟩), hpanic] at hr
    cases hr
  · intro hcut
    by_cases hspells : ∃ t, Spells (trim s) t
    · obtain ⟨t, ht⟩ := hspells
      have hread := xmltvTimeToIso_of_spells ht
      refine ⟨_, hread, ?_, fun hnone => absurd ht (hnone t)⟩
      rintro t' ht'
      rw [xmltvTimeToIso_of_spells ht'] at hread
      exact ⟨_, (Option.some.inj hread).symm, denotes_isoText (year_instant ht')⟩
    · refine ⟨none, ?_, fun t ht => absurd ⟨t, ht⟩ hspells, fun _ => rfl⟩
      by_cases hstamped : Stamped (trim s)
      · obtain ⟨x, blank, off, hlayout⟩ := exists_layout hstamped (hcut hstamped)
        by_contra hread
        exact hspells (spells_of_xmltvTimeToIso hlayout hread)
      · rw [Stamped, not_and_or, not_le] at hstamped
        exact if_pos hstamped

/-- `20240101000000é0000`, whose last five bytes begin in the middle of a character. -/
def accented : List Char :=
  ['2', '0', '2', '4', '0', '1', '0', '1', '0', '0', '0', '0', '0', '0', 'é', '0', '0', '0', '0']

theorem not_exact_accented : ¬Exact accented := by
  rintro ⟨r, hr, -⟩
  have hpanic : xmltvTimeToIso accented = none := by decide
  rw [hpanic] at hr
  cases hr

end EmeraldExchange.Iptv
