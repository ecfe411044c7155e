import DataLiteral.Text.Digit

set_option autoImplicit false

namespace DataLiteral.Toml

structure Date where
  year : Nat
  month : Nat
  day : Nat
  deriving DecidableEq, Repr

structure Time where
  hour : Nat
  minute : Nat
  second : Nat
  nanosecond : Nat
  deriving DecidableEq, Repr

inductive Offset where
  | utc
  | minutes (east : Int)
  deriving DecidableEq, Repr

inductive Datetime where
  | date (date : Date)
  | time (time : Time)
  | localDatetime (date : Date) (time : Time)
  | offsetDatetime (date : Date) (time : Time) (offset : Offset)
  deriving DecidableEq, Repr

def pad (width : Nat) (n : Nat) : Text :=
  let digits := Text.ofNat n
  List.replicate (width - digits.length) '0' ++ digits

def Date.text (date : Date) : Text :=
  pad 4 date.year ++ '-' :: pad 2 date.month ++ '-' :: pad 2 date.day

def Time.text (time : Time) : Text :=
  pad 2 time.hour ++ ':' :: pad 2 time.minute ++ ':' :: pad 2 time.second ++
    if time.nanosecond = 0 then [] else '.' :: Text.trimEnd '0' (pad 9 time.nanosecond)

def Offset.text : Offset → Text
  | .utc => ['Z']
  | .minutes east =>
      (if east < 0 then '-' else '+') :: pad 2 (east.natAbs / 60) ++ ':' ::
        pad 2 (east.natAbs % 60)

def Datetime.text : Datetime → Text
  | .date d => d.text
  | .time t => t.text
  | .localDatetime d t => d.text ++ 'T' :: t.text
  | .offsetDatetime d t offset => d.text ++ 'T' :: t.text ++ offset.text

def isLeapYear (year : Nat) : Bool :=
  year % 4 == 0 && (year % 100 != 0 || year % 400 == 0)

def daysIn (year month : Nat) : Nat :=
  if month = 2 then if isLeapYear year then 29 else 28
  else if month = 4 ∨ month = 6 ∨ month = 9 ∨ month = 11 then 30
  else 31

def takeFixed? (count : Nat) (text : Text) : Option (Nat × Text) :=
  let digits := text.take count
  if digits.length = count ∧ digits.all Char.isDigit then
    some (Text.numeral 10 digits, text.drop count)
  else none

def takeMark? (mark : Char) : Text → Option Text
  | c :: rest => if c = mark then some rest else none
  | [] => none

def takeDate? (text : Text) : Option (Date × Text) := do
  let (year, text) ← takeFixed? 4 text
  let text ← takeMark? '-' text
  let (month, text) ← takeFixed? 2 text
  let text ← takeMark? '-' text
  let (day, text) ← takeFixed? 2 text
  guard (1 ≤ month ∧ month ≤ 12 ∧ 1 ≤ day ∧ day ≤ daysIn year month)
  return (⟨year, month, day⟩, text)

def takeFraction? : Text → Option (Nat × Text)
  | '.' :: rest =>
      let digits := rest.takeWhile Char.isDigit
      if digits.isEmpty then none
      else
        some (Text.numeral 10 ((digits ++ List.replicate 9 '0').take 9),
          rest.dropWhile Char.isDigit)
  | text => some (0, text)

def takeSeconds? : Text → Option (Nat × Nat × Text)
  | ':' :: rest => do
      let (second, rest) ← takeFixed? 2 rest
      let (nanosecond, rest) ← takeFraction? rest
      return (second, nanosecond, rest)
  | text => some (0, 0, text)

def takeTime? (text : Text) : Option (Time × Text) := do
  let (hour, text) ← takeFixed? 2 text
  let text ← takeMark? ':' text
  let (minute, text) ← takeFixed? 2 text
  let (second, nanosecond, text) ← takeSeconds? text
  guard (hour ≤ 23 ∧ minute ≤ 59 ∧ second ≤ 60)
  return (⟨hour, minute, second, nanosecond⟩, text)

def readOffset? : Text → Option Offset
  | ['Z'] => some .utc
  | ['z'] => some .utc
  | sign :: text => do
      guard (sign = '+' ∨ sign = '-')
      let (hour, text) ← takeFixed? 2 text
      let text ← takeMark? ':' text
      let (minute, text) ← takeFixed? 2 text
      guard (hour ≤ 23 ∧ minute ≤ 59 ∧ text = [])
      let east : Int := hour * 60 + minute
      return .minutes (if sign = '-' then -east else east)
  | [] => none

def isDateEnd (c : Char) : Bool :=
  c == 'T' || c == 't' || c == ' '

def readDatetime? (text : Text) : Option Datetime :=
  match takeDate? text with
  | some (date, []) => some (.date date)
  | some (date, mark :: rest) => do
      guard (isDateEnd mark)
      let (time, rest) ← takeTime? rest
      if rest.isEmpty then return .localDatetime date time
      else return .offsetDatetime date time (← readOffset? rest)
  | none =>
      match takeTime? text with
      | some (time, []) => some (.time time)
      | _ => none

end DataLiteral.Toml
