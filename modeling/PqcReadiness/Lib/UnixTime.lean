import PqcReadiness.Lib.Convert

/-!
# Seconds since 1970

`datetime.fromtimestamp(seconds, tz=timezone.utc)` for times that are not before 1970.  The days
are counted from the first of March of a leap year, so that the leap day is the last of its year.
-/

namespace PqcReadiness.Lib

/-- The date that so many days after the first of January 1970 are. -/
def dateOfDays (days : ℕ) : ℕ × ℕ × ℕ :=
  let shifted := days + 719468
  let era := shifted / 146097
  let dayOfEra := shifted % 146097
  let yearOfEra := (dayOfEra - dayOfEra / 1460 + dayOfEra / 36524 - dayOfEra / 146096) / 365
  let dayOfYear := dayOfEra - (365 * yearOfEra + yearOfEra / 4 - yearOfEra / 100)
  let month := (5 * dayOfYear + 2) / 153
  let day := dayOfYear - (153 * month + 2) / 5 + 1
  if month < 10 then (era * 400 + yearOfEra, month + 3, day)
  else (era * 400 + yearOfEra + 1, month - 9, day)

/-- `datetime.fromtimestamp(seconds, tz=timezone.utc)`. -/
def BrokenDownTime.ofUnix (seconds : ℕ) : BrokenDownTime :=
  let (year, month, day) := dateOfDays (seconds / 86400)
  ⟨year, month, day, seconds % 86400 / 3600, seconds % 3600 / 60, seconds % 60⟩

/-- `time.strftime("%Y-%m-%dT%H:%M:%SZ")`. -/
def BrokenDownTime.zulu (time : BrokenDownTime) : String :=
  zeroPadded 4 time.year ++ "-" ++ zeroPadded 2 time.month ++ "-" ++ zeroPadded 2 time.day ++
    "T" ++ zeroPadded 2 time.hour ++ ":" ++ zeroPadded 2 time.minute ++ ":" ++
    zeroPadded 2 time.second ++ "Z"

end PqcReadiness.Lib
