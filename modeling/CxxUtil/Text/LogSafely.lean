import Mathlib.Data.Int.Notation
import Mathlib.Data.Int.Init
import CxxUtil.Foundations.FixedWidth

/-! # `LogSafely`

`include/util/logsafely.hpp`: how the timer and clock values of a log record are printed. A duration
is a number of microseconds, from which the parts are taken as `posix_time::time_duration` takes
them, and a clock value has a date and a time of day. Every insertion pads its text on the left with
the fill character and sets the width back to 0. -/
namespace CxxUtil.Text.LogSafely
open Foundations
set_option autoImplicit false

structure FormatStream where
  fill : Char
  width : ℕ
  text : List Char

def printInt : ℤ → List Char
  | .ofNat n => Nat.toDigits 10 n
  | .negSucc n => '-' :: Nat.toDigits 10 (n + 1)

namespace FormatStream

def setfill (c : Char) (os : FormatStream) : FormatStream := { os with fill := c }

def setw (n : ℕ) (os : FormatStream) : FormatStream := { os with width := n }

def insert (t : List Char) (os : FormatStream) : FormatStream :=
  { os with width := 0, text := os.text ++ (List.replicate (os.width - t.length) os.fill ++ t) }

def insertInt (n : ℤ) (os : FormatStream) : FormatStream := os.insert (printInt n)

end FormatStream

/-- Microseconds. -/
structure TimeDuration where
  ticks : ℤ
  deriving DecidableEq, Repr

namespace TimeDuration

def hours (t : TimeDuration) : ℤ := t.ticks.tdiv 3600000000

def minutes (t : TimeDuration) : ℤ := (t.ticks.tdiv 60000000).tmod 60

def seconds (t : TimeDuration) : ℤ := (t.ticks.tdiv 1000000).tmod 60

def fractionalSeconds (t : TimeDuration) : ℤ := t.ticks.tmod 1000000

end TimeDuration

/-- A date of the years that the library has, and a time of that day. -/
structure LocalTime where
  year : ℕ
  month : ℕ
  day : ℕ
  timeOfDay : TimeDuration
  year_range : 1400 ≤ year ∧ year ≤ 9999
  month_range : 1 ≤ month ∧ month ≤ 12
  day_range : 1 ≤ day ∧ day ≤ 31
  timeOfDay_range : 0 ≤ timeOfDay.ticks ∧ timeOfDay.ticks < 86400000000

/-- `operator<<` for a timer value. -/
def insertTimer (os : FormatStream) (t : TimeDuration) : FormatStream :=
  let os := os.setfill '0'
  let os := ((os.setw 2).insertInt t.hours).insert [':']
  let os := ((os.setw 2).insertInt t.minutes).insert [':']
  let os := ((os.setw 2).insertInt t.seconds).insert ['.']
  (os.setw 6).insertInt t.fractionalSeconds

/-- `operator<<` for a clock value. -/
def insertLocalClock (os : FormatStream) (t : LocalTime) : FormatStream :=
  let os := os.setfill '0'
  let os := ((os.setw 4).insertInt t.year).insert ['-']
  let os := ((os.setw 2).insertInt t.month).insert ['-']
  let os := ((os.setw 2).insertInt t.day).insert ['T']
  insertTimer os t.timeOfDay

/-- What is printed to an empty stream. -/
def timerText (t : TimeDuration) : List Char := (insertTimer ⟨' ', 0, []⟩ t).text

def stamp (t : LocalTime) : List Char := (insertLocalClock ⟨' ', 0, []⟩ t).text

/-! ## The texts as records -/

def minuteFields : List Field := [⟨2, [':']⟩, ⟨2, ['.']⟩, ⟨6, []⟩]

def timeFields : List Field := ⟨2, [':']⟩ :: minuteFields

def stampFields : List Field := [⟨4, ['-']⟩, ⟨2, ['-']⟩, ⟨2, ['T']⟩] ++ timeFields

namespace TimeDuration

def minuteNumbers (n : ℕ) : List ℕ := [n / 60000000 % 60, n / 1000000 % 60, n % 1000000]

/-- Hours, minutes, seconds and microseconds. -/
def numbers (n : ℕ) : List ℕ := n / 3600000000 :: minuteNumbers n

end TimeDuration

open TimeDuration

def LocalTime.ticks (t : LocalTime) : ℕ := t.timeOfDay.ticks.toNat

/-- What is compared, the more significant first. -/
def LocalTime.key (t : LocalTime) : List ℕ := [t.year, t.month, t.day, t.ticks]

def LocalTime.Earlier (a b : LocalTime) : Prop := a.key < b.key

def ticksOf : List ℕ → ℕ
  | [h, m, s, f] => ((h * 60 + m) * 60 + s) * 1000000 + f
  | _ => 0

theorem ticksOf_numbers (n : ℕ) : ticksOf (numbers n) = n := by
  simp only [numbers, minuteNumbers, ticksOf]
  omega

theorem fits_minuteNumbers (n : ℕ) : Fits minuteFields (minuteNumbers n) := by
  have hm : FitsField ⟨2, [':']⟩ (n / 60000000 % 60) := ⟨by decide, by show _ < 10 ^ 2; omega⟩
  have hs : FitsField ⟨2, ['.']⟩ (n / 1000000 % 60) := ⟨by decide, by show _ < 10 ^ 2; omega⟩
  have hf : FitsField ⟨6, []⟩ (n % 1000000) := ⟨by decide, by show _ < 10 ^ 6; omega⟩
  exact .cons hm (.cons hs (.cons hf .nil))

theorem fits_numbers {n : ℕ} (hn : n < 360000000000) : Fits timeFields (numbers n) := by
  have hh : FitsField ⟨2, [':']⟩ (n / 3600000000) := ⟨by decide, by show _ < 10 ^ 2; omega⟩
  exact .cons hh (fits_minuteNumbers n)

/-- The parts of a duration are compared as the duration is. -/
theorem numbers_lt_iff (m n : ℕ) : numbers m < numbers n ↔ m < n := by
  simp only [numbers, minuteNumbers, List.cons_lt_cons_iff, List.not_lt_nil, and_false, or_false]
  omega

/-! ## What is printed -/

theorem insertTimer_text (os : FormatStream) (n : ℕ) :
    (insertTimer os ⟨n⟩).text = os.text ++ recordText timeFields (numbers n) := by
  have hh : hours ⟨n⟩ = (n / 3600000000 : ℕ) := rfl
  have hm : minutes ⟨n⟩ = (n / 60000000 % 60 : ℕ) := rfl
  have hs : seconds ⟨n⟩ = (n / 1000000 % 60 : ℕ) := rfl
  have hf : fractionalSeconds ⟨n⟩ = (n % 1000000 : ℕ) := rfl
  rw [insertTimer, hh, hm, hs, hf]
  show (((((os.text ++ padded 2 _) ++ [':']) ++ padded 2 _) ++ [':']) ++ padded 2 _) ++ ['.'] ++
    padded 6 _ = _
  simp only [timeFields, minuteFields, numbers, minuteNumbers, recordText, List.append_assoc,
    List.append_nil]

theorem LocalTime.timeOfDay_eq (t : LocalTime) : t.timeOfDay = ⟨t.ticks⟩ := by
  have hticks : (t.ticks : ℤ) = t.timeOfDay.ticks := Int.toNat_of_nonneg t.timeOfDay_range.1
  rw [hticks]

theorem LocalTime.ticks_lt (t : LocalTime) : t.ticks < 86400000000 := by
  have hticks : (t.ticks : ℤ) = t.timeOfDay.ticks := Int.toNat_of_nonneg t.timeOfDay_range.1
  have hlt := t.timeOfDay_range.2
  omega

def LocalTime.numbers (t : LocalTime) : List ℕ :=
  t.year :: t.month :: t.day :: TimeDuration.numbers t.ticks

theorem insertLocalClock_text (os : FormatStream) (t : LocalTime) :
    (insertLocalClock os t).text = os.text ++ recordText stampFields t.numbers := by
  rw [insertLocalClock, t.timeOfDay_eq, insertTimer_text]
  show (((((os.text ++ padded 4 _) ++ ['-']) ++ padded 2 _) ++ ['-']) ++ padded 2 _) ++ ['T'] ++
    recordText timeFields _ = _
  simp only [stampFields, LocalTime.numbers, List.cons_append, List.nil_append, recordText,
    List.append_assoc]

theorem stamp_eq (t : LocalTime) : stamp t = recordText stampFields t.numbers :=
  insertLocalClock_text _ t

theorem fits_stamp (t : LocalTime) : Fits stampFields t.numbers := by
  have hy : FitsField ⟨4, ['-']⟩ t.year :=
    ⟨by decide, by have hyear := t.year_range; show _ < 10 ^ 4; omega⟩
  have hm : FitsField ⟨2, ['-']⟩ t.month :=
    ⟨by decide, by have hmonth := t.month_range; show _ < 10 ^ 2; omega⟩
  have hd : FitsField ⟨2, ['T']⟩ t.day :=
    ⟨by decide, by have hday := t.day_range; show _ < 10 ^ 2; omega⟩
  have hticks := t.ticks_lt
  exact .cons hy (.cons hm (.cons hd (fits_numbers (by omega))))

theorem earlier_iff (a b : LocalTime) : a.numbers < b.numbers ↔ a.Earlier b := by
  have hticks : [a.ticks] < [b.ticks] ↔ a.ticks < b.ticks := by
    simp only [List.cons_lt_cons_iff, List.not_lt_nil, and_false, or_false]
  simp only [LocalTime.Earlier, LocalTime.key, LocalTime.numbers, List.cons_lt_cons_iff, hticks,
    numbers_lt_iff]

/-- Reads a clock value back from the places of its fields. -/
def readStamp (text : List Char) : List ℕ :=
  match readRecord stampFields text with
  | y :: m :: d :: time => [y, m, d, ticksOf time]
  | _ => []

theorem length_stamp (t : LocalTime) : (stamp t).length = 26 := by
  rw [stamp_eq]
  exact length_recordText (fits_stamp t)

theorem readStamp_stamp (t : LocalTime) (rest : List Char) :
    readStamp (stamp t ++ rest) = t.key := by
  rw [stamp_eq, readStamp, readRecord_recordText (fits_stamp t)]
  show [t.year, t.month, t.day, ticksOf (TimeDuration.numbers t.ticks)] = t.key
  rw [ticksOf_numbers]
  rfl

theorem stamp_lt_iff (a b : LocalTime) : stamp a < stamp b ↔ a.Earlier b := by
  rw [stamp_eq, stamp_eq, recordText_lt_iff (fits_stamp a) (fits_stamp b), earlier_iff]

/-- **The time stamps sort.** A clock value is printed as a text of 26 characters, whatever has been
printed to the stream and whatever its fill character and width are. The date and the time of day
can be read back from the beginning of what is printed, and one text comes before another in the
lexicographic order exactly when its time is earlier. -/
theorem timestamps_sort (os : FormatStream) (a b : LocalTime) :
    (insertLocalClock os a).text = os.text ++ stamp a ∧ (stamp a).length = 26 ∧
    (∀ rest, readStamp (stamp a ++ rest) = a.key) ∧ (stamp a < stamp b ↔ a.Earlier b) := by
  have htext : (insertLocalClock os a).text = os.text ++ stamp a := by
    rw [insertLocalClock_text, stamp_eq]
  exact ⟨htext, length_stamp a, readStamp_stamp a, stamp_lt_iff a b⟩

/-! ## Timers -/

/-- As many hours as there are are printed, so that their field has no fixed width. -/
def timerFields (width : ℕ) : List Field := ⟨width, [':']⟩ :: minuteFields

def hoursWidth (n : ℕ) : ℕ := (padded 2 (n / 3600000000)).length

theorem timerText_eq (n : ℕ) :
    timerText ⟨n⟩ = recordText (timerFields (hoursWidth n)) (numbers n) := by
  have htext : timerText ⟨n⟩ = recordText timeFields (numbers n) := insertTimer_text _ n
  rw [htext]
  show padded 2 _ ++ _ = padded (hoursWidth n) _ ++ _
  rw [hoursWidth, padded_length_padded]

theorem fits_timer (n : ℕ) : Fits (timerFields (hoursWidth n)) (numbers n) :=
  .cons ⟨length_padded_pos 2 _, lt_length_padded 2 _⟩ (fits_minuteNumbers n)

theorem length_timerText (n : ℕ) : (timerText ⟨n⟩).length = hoursWidth n + 13 := by
  rw [timerText_eq, length_recordText (fits_timer n)]
  rfl

/-- Reads a timer value back: the hours take what the rest leaves. -/
def readTimer (text : List Char) : ℕ := ticksOf (readRecord (timerFields (text.length - 13)) text)

/-- **Timers read back, and sort where they are equally long.** An elapsed time is printed so that
it can be read back, however long it is. Its text has 15 characters below 100 hours; the order of
two texts of one length is the order of the times. -/
theorem timers_read_back (os : FormatStream) {t : TimeDuration} (ht : 0 ≤ t.ticks) :
    (insertTimer os t).text = os.text ++ timerText t ∧
    (readTimer (timerText t) : ℤ) = t.ticks ∧
    (t.hours < 100 → (timerText t).length = 15) ∧
    ∀ u : TimeDuration, 0 ≤ u.ticks → (timerText t).length = (timerText u).length →
      (timerText t < timerText u ↔ t.ticks < u.ticks) := by
  obtain ⟨ticks⟩ := t
  obtain ⟨n, rfl⟩ := Int.eq_ofNat_of_zero_le ht
  refine ⟨?_, ?_, fun hhours => ?_, fun u hu hlen => ?_⟩
  · rw [insertTimer_text, timerText, insertTimer_text]
    rfl
  · have hwidth : (timerText ⟨n⟩).length - 13 = hoursWidth n := by rw [length_timerText]; rfl
    have hread := readRecord_recordText (fits_timer n) []
    rw [List.append_nil] at hread
    rw [readTimer, hwidth, timerText_eq, hread, ticksOf_numbers]
  · have hlt : n / 3600000000 < 10 ^ 2 := Int.ofNat_lt.mp hhours
    rw [length_timerText, hoursWidth, length_padded (by decide) hlt]
  · obtain ⟨ticks'⟩ := u
    obtain ⟨m, rfl⟩ := Int.eq_ofNat_of_zero_le hu
    have hwidth : hoursWidth n = hoursWidth m := by
      rw [length_timerText, length_timerText] at hlen
      omega
    have hfits := fits_timer n
    rw [hwidth] at hfits
    rw [timerText_eq, timerText_eq, hwidth, recordText_lt_iff hfits (fits_timer m), numbers_lt_iff]
    exact Int.ofNat_lt.symm

theorem timers_read_back_hundred :
    timerText ⟨359999999999⟩ = "99:59:59.999999".toList ∧
      readTimer (timerText ⟨360000000000⟩) = 360000000000 := by
  have hhundred := timers_read_back ⟨' ', 0, []⟩ (t := ⟨360000000000⟩) (by decide)
  exact ⟨by decide, Int.ofNat.inj hhundred.2.1⟩

end CxxUtil.Text.LogSafely
