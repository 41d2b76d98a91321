/-!
# Dates

The date and time of day, in universal time, of a number of seconds after the start of 1970.
-/

namespace AgentRules.Clock

/-- Year, month and day of a number of days after the first of March of the year zero. A year is
counted from March, so that the day that only some years have comes last. -/
def civil (days : Nat) : Nat × Nat × Nat :=
  let era := days / 146097
  let day := days % 146097
  let year := (day - day / 1460 + day / 36524 - day / 146096) / 365
  let rest := day - (365 * year + year / 4 - year / 100)
  let month := (5 * rest + 2) / 153
  let date := rest - (153 * month + 2) / 5 + 1
  if month < 10 then (400 * era + year, month + 3, date) else (400 * era + year + 1, month - 9, date)

def padded (width n : Nat) : String :=
  let ds := Nat.toDigits 10 n
  String.ofList (List.replicate (width - ds.length) '0' ++ ds)

def stamp (seconds : Nat) : String :=
  let (year, month, day) := civil (seconds / 86400 + 719468)
  let s := seconds % 86400
  let date := "-".intercalate [padded 4 year, padded 2 month, padded 2 day]
  let time := ":".intercalate [padded 2 (s / 3600), padded 2 (s / 60 % 60), padded 2 (s % 60)]
  s!"{date}T{time}Z"

end AgentRules.Clock
