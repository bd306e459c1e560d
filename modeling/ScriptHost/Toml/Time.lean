import ScriptHost.Number.Power
import ScriptHost.Text.Bytes

set_option autoImplicit false

namespace ScriptHost

structure Date where
  year : Int
  month : Nat
  day : Nat
deriving DecidableEq, Repr

namespace Date

def isLeap (year : Int) : Bool :=
  year % 4 = 0 ∧ (year % 100 ≠ 0 ∨ year % 400 = 0)

def daysIn (year : Int) (month : Nat) : Nat :=
  if month = 2 then if isLeap year then 29 else 28
  else if month = 4 ∨ month = 6 ∨ month = 9 ∨ month = 11 then 30
  else 31

def ofDays (days : Int) : Date :=
  let shifted := days + 719468
  let era := shifted / 146097
  let dayOfEra := shifted % 146097
  let yearOfEra := (dayOfEra - dayOfEra / 1460 + dayOfEra / 36524 - dayOfEra / 146096) / 365
  let dayOfYear := dayOfEra - (365 * yearOfEra + yearOfEra / 4 - yearOfEra / 100)
  let fromMarch := (5 * dayOfYear + 2) / 153
  let day := dayOfYear - (153 * fromMarch + 2) / 5 + 1
  let month := if fromMarch < 10 then fromMarch + 3 else fromMarch - 9
  let year := yearOfEra + era * 400 + if month ≤ 2 then 1 else 0
  ⟨year, month.toNat, day.toNat⟩

def padded (width : Nat) (n : Nat) : Bytes :=
  let digits := Bytes.ofNat n
  List.replicate (width - digits.length) 0x30 ++ digits

def text (d : Date) : Bytes :=
  (if d.year < 0 then [0x2d] else []) ++ padded 4 d.year.natAbs ++ 0x2d :: padded 2 d.month
    ++ 0x2d :: padded 2 d.day

end Date

structure Clock where
  hour : Nat
  minute : Nat
  second : Nat
  fraction : Bytes
deriving DecidableEq, Repr

def Clock.text (c : Clock) : Bytes :=
  Date.padded 2 c.hour ++ 0x3a :: Date.padded 2 c.minute ++ 0x3a :: Date.padded 2 c.second
    ++ if c.fraction.isEmpty then [] else 0x2e :: c.fraction

def secondsBefore1970 : Int := 9223372028741760000

def momentText (seconds : Int) : Bytes :=
  let seconds := (seconds + secondsBefore1970) % 2 ^ 64 - secondsBefore1970
  let rest := (seconds % 86400).toNat
  (Date.ofDays (seconds / 86400)).text ++ 0x20 ::
    (Clock.text ⟨rest / 3600, rest / 60 % 60, rest % 60, []⟩)

inductive TimeZone where
  | offset (isNegative : Bool) (hours minutes : Nat)
  | localDatetime
  | localDate
  | localTime
deriving DecidableEq, Repr

structure Time where
  date : Date
  clock : Clock
  zone : TimeZone
deriving DecidableEq, Repr

namespace Time

def zoneText : TimeZone → Bytes
  | .offset isNegative hours minutes =>
    let total := 60 * hours + minutes
    let shift : Bytes := (if isNegative then 0x2d else 0x2b) ::
      (Date.padded 2 (total / 60) ++ Date.padded 2 (total % 60))
    if total = 0 then "+0000 UTC" else shift ++ 0x20 :: shift
  | .localDatetime => "+0000 datetime-local"
  | .localDate => "+0000 date-local"
  | .localTime => "+0000 time-local"

def text (t : Time) : Bytes :=
  t.date.text ++ 0x20 :: t.clock.text ++ 0x20 :: zoneText t.zone

end Time

end ScriptHost
