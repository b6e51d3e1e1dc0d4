import ApiPages.Fault
import ApiPages.Value

namespace ApiPages.Yaml

/-- A time of day, with the distance from universal time in minutes if it is given. -/
structure Clock where
  hour : Nat
  minute : Nat
  second : Nat
  microsecond : Nat
  zone : Option Int

structure Date where
  year : Nat
  month : Nat
  day : Nat
  clock : Option Clock

namespace Date

def readCount (least greatest : Nat) (cs : List Char) : Option (Nat × List Char) :=
  let digits := (cs.take greatest).takeWhile Char.isDigit
  if digits.length < least then none
  else
    some (digits.foldl (fun n c => n * 10 + (c.toNat - '0'.toNat)) 0, cs.drop digits.length)

def behind (mark : Char) : List Char → Option (List Char)
  | c :: cs => if c = mark then some cs else none
  | [] => none

def isBlank (c : Char) : Bool :=
  c == ' ' || c == '\t'

/-- The distance from universal time, up to the end of the text; none is fine too. -/
def readZone (cs : List Char) : Option (Option Int) :=
  match cs with
  | [] => some none
  | _ =>
    match cs.dropWhile isBlank with
    | ['Z'] => some (some 0)
    | s :: cs => do
      let (hours, cs) ← readCount 1 2 cs
      let (minutes, cs) ← if cs.isEmpty then pure (0, cs) else readCount 2 2 (← behind ':' cs)
      let unit ← if s = '+' then some 1 else if s = '-' then some (-1) else none
      if cs.isEmpty then return some (unit * (hours * 60 + minutes : Int)) else none
    | [] => none

def readMillionths (cs : List Char) : Nat × List Char :=
  match cs with
  | '.' :: cs =>
    let digits := cs.takeWhile Char.isDigit
    let padded := (digits ++ List.replicate 6 '0').take 6
    (padded.foldl (fun n c => n * 10 + (c.toNat - '0'.toNat)) 0, cs.drop digits.length)
  | _ => (0, cs)

def readClock (cs : List Char) : Option Clock := do
  let (hour, cs) ← readCount 1 2 cs
  let (minute, cs) ← readCount 2 2 (← behind ':' cs)
  let (second, cs) ← readCount 2 2 (← behind ':' cs)
  let (microsecond, cs) := readMillionths cs
  let zone ← readZone cs
  return { hour, minute, second, microsecond, zone }

def skipSeparator : List Char → Option (List Char)
  | 'T' :: cs => some cs
  | 't' :: cs => some cs
  | c :: cs => if isBlank c then some (cs.dropWhile isBlank) else none
  | [] => none

def ofText (cs : List Char) : Option Date := do
  let (year, cs) ← readCount 4 4 cs
  let (month, cs) ← readCount 1 2 (← behind '-' cs)
  let (day, cs) ← readCount 1 2 (← behind '-' cs)
  if cs.isEmpty then return { year, month, day, clock := none }
  else return { year, month, day, clock := ← readClock (← skipSeparator cs) }

/-- Whether a text is seen to be a date: a day by itself has all of its digits. -/
def looks (cs : List Char) : Bool :=
  (ofText cs).any fun d => d.clock.isSome || cs.length == 10

def isLeap (year : Nat) : Bool :=
  year % 4 == 0 && (year % 100 != 0 || year % 400 == 0)

def daysIn (year month : Nat) : Nat :=
  if month = 2 then if isLeap year then 29 else 28
  else if month = 4 ∨ month = 6 ∨ month = 9 ∨ month = 11 then 30
  else 31

def padded (width n : Nat) : String :=
  let digits := toString n
  String.ofList (List.replicate (width - digits.length) '0') ++ digits

def shownSpan (minutes : Int) : String :=
  let days := Int.fdiv minutes 1440
  let seconds := Int.fmod minutes 1440 * 60
  let parts :=
    (if days = 0 then [] else [s!"days={days}"]) ++
      (if seconds = 0 then [] else [s!"seconds={seconds}"])
  "datetime.timedelta(" ++ (if parts.isEmpty then "0" else String.intercalate ", " parts) ++ ")"

def fault? (d : Date) : Option String :=
  let day? : Option String :=
    if d.year = 0 then some "year 0 is out of range"
    else if d.month = 0 ∨ 12 < d.month then some "month must be in 1..12"
    else if d.day = 0 ∨ daysIn d.year d.month < d.day then some "day is out of range for month"
    else none
  match d.clock with
  | none => day?
  | some c =>
    let zone? : Option String :=
      c.zone.bind fun minutes =>
        if minutes ≤ -1440 ∨ 1440 ≤ minutes then
          some ("offset must be a timedelta strictly between -timedelta(hours=24) and " ++
            s!"timedelta(hours=24), not {shownSpan minutes}.")
        else none
    let clock? : Option String :=
      if 23 < c.hour then some "hour must be in 0..23"
      else if 59 < c.minute then some "minute must be in 0..59"
      else if 59 < c.second then some "second must be in 0..59"
      else none
    zone?.or (day?.or clock?)

def shownZone (minutes : Int) : String :=
  let n := minutes.natAbs
  (if minutes < 0 then "-" else "+") ++ padded 2 (n / 60) ++ ":" ++ padded 2 (n % 60)

def alone (d : Date) : String :=
  let day := padded 4 d.year ++ "-" ++ padded 2 d.month ++ "-" ++ padded 2 d.day
  match d.clock with
  | none => day
  | some c =>
    day ++ " " ++ padded 2 c.hour ++ ":" ++ padded 2 c.minute ++ ":" ++ padded 2 c.second ++
      (if c.microsecond = 0 then "" else "." ++ padded 6 c.microsecond) ++
      (c.zone.map shownZone).getD ""

/-- A date inside a list. Of the seconds and their millionths, zeros at the end are left out. -/
def inside (d : Date) : String :=
  let day := [d.year, d.month, d.day]
  match d.clock with
  | none => "datetime.date(" ++ String.intercalate ", " (day.map toString) ++ ")"
  | some c =>
    let small :=
      if c.microsecond ≠ 0 then [c.second, c.microsecond]
      else if c.second ≠ 0 then [c.second]
      else []
    let zone :=
      match c.zone with
      | none => []
      | some 0 => ["tzinfo=datetime.timezone.utc"]
      | some minutes => ["tzinfo=datetime.timezone(" ++ shownSpan minutes ++ ")"]
    "datetime.datetime(" ++
      String.intercalate ", " ((day ++ [c.hour, c.minute] ++ small).map toString ++ zone) ++ ")"

def toValue (d : Date) : Except Fault Value :=
  match d.fault? with
  | some reason => .error (.noSuchDate reason)
  | none => .ok (.shown d.alone d.inside)

end Date

end ApiPages.Yaml
