import Blueprints.Text.Blank
import Blueprints.Text.Numeral
import Blueprints.Time.Calendar

/-! # Time stamps

    A time stamp is a point in time to the nanosecond.  It is read from a
    date, a time and an offset from universal time, with blanks allowed
    between the parts, and is written in universal time with as few of 0,
    3, 6 or 9 fraction digits as hold it.  A second numbered 60 is kept as
    the 59th with a fraction of one or more. -/

namespace Blueprints.Time

/-- A point in time: seconds since the start of 1970 and a fraction. -/
structure Timestamp where
  seconds : Int
  /-- Nanoseconds; a thousand million or more in a leap second. -/
  nanos : Nat
  deriving DecidableEq, Repr

/-- Why a text is no time stamp. -/
inductive Fault where
  | outOfRange
  | impossible
  | invalid
  | tooShort
  | tooLong
  deriving DecidableEq, Repr

/-- Why a text is no time stamp, in words. -/
def Fault.message : Fault → String
  | .outOfRange => "input is out of range"
  | .impossible => "no possible date and time matching input"
  | .invalid => "input contains invalid characters"
  | .tooShort => "premature end of input"
  | .tooLong => "trailing input"

namespace Timestamp

/-- The start of 1970. -/
def epoch : Timestamp := ⟨0, 0⟩

instance : Inhabited Timestamp := ⟨epoch⟩

/-! ## Reading -/

/-- The outcome of reading a part. -/
abbrev Scan (α : Type) := Except Fault (α × List Char)

/-- A number of at most `width` digits. -/
def number (width : Nat) (cs : List Char) : Scan Nat :=
  let digits := (cs.take width).takeWhile Char.isDigit
  if cs.isEmpty then .error .tooShort
  else if digits.isEmpty then .error .invalid
  else if Nat.pow 2 63 ≤ Text.digitsValue digits then .error .outOfRange
  else .ok (Text.digitsValue digits, cs.drop digits.length)

/-- A number of at most two digits within bounds, after blanks. -/
def field (least greatest : Nat) (cs : List Char) : Scan Nat :=
  match number 2 (Text.trimStart cs) with
  | .error e => .error e
  | .ok (n, rest) =>
    if least ≤ n ∧ n ≤ greatest then .ok (n, rest) else .error .outOfRange

/-- A year: four digits at most, or any number of them after a sign. -/
def year (cs : List Char) : Scan Int :=
  let signed : Scan Int :=
    match Text.trimStart cs with
    | '-' :: r => (number r.length r).map fun (n, rest) => (-(n : Int), rest)
    | '+' :: r => (number r.length r).map fun (n, rest) => ((n : Int), rest)
    | r => (number 4 r).map fun (n, rest) => ((n : Int), rest)
  match signed with
  | .error e => .error e
  | .ok (n, rest) =>
    if -2147483648 ≤ n ∧ n < 2147483648 then .ok (n, rest) else .error .outOfRange

/-- A mark between two parts, after blanks. -/
def mark (c : Char) (cs : List Char) : Except Fault (List Char) :=
  match Text.trimStart cs with
  | [] => .error .tooShort
  | d :: r => if c = d then .ok r else .error .invalid

/-- The mark between date and time. -/
def dateEnd (cs : List Char) : Except Fault (List Char) :=
  match cs with
  | [] => .error .tooShort
  | c :: r => if c == 'T' || c == 't' || c == ' ' then .ok r else .error .invalid

/-- A fraction of a second in nanoseconds, if there is one; digits after the
    ninth are dropped. -/
def fraction (cs : List Char) : Scan Nat :=
  match cs with
  | '.' :: r =>
    match number 9 r with
    | .error e => .error e
    | .ok (n, rest) =>
      .ok (n * Nat.pow 10 (9 - (r.length - rest.length)), rest.dropWhile Char.isDigit)
  | _ => .ok (0, cs)

/-- Two digits.  Text of fewer than two bytes is too short for them. -/
def twoDigits (cs : List Char) : Scan (Nat × Nat) :=
  match cs with
  | [] => .error .tooShort
  | [c] => if c.utf8Size < 2 then .error .tooShort else .error .invalid
  | c :: d :: r =>
    if c.isDigit && d.isDigit then .ok ((c.toNat - 48, d.toNat - 48), r)
    else .error .invalid

/-- Hours and minutes of an offset, as seconds. -/
def offsetSize (cs : List Char) : Scan Nat :=
  match twoDigits cs with
  | .error e => .error e
  | .ok ((h, h'), rest) =>
    match twoDigits (rest.dropWhile fun c => c == ':' || Text.isBlank c) with
    | .error e => .error e
    | .ok ((m, m'), rest) =>
      if m < 6 then .ok ((h * 10 + h') * 3600 + (m * 10 + m') * 60, rest)
      else .error .outOfRange

/-- The offset from universal time, in seconds. -/
def offset (cs : List Char) : Scan Int :=
  if (cs.take 3).map Char.toLower = ['u', 't', 'c'] then .ok (0, cs.drop 3)
  else
    match cs with
    | [] => .error .tooShort
    | c :: r =>
      if c == 'Z' || c == 'z' then .ok (0, r)
      else if c == '+' then (offsetSize r).map fun (n, rest) => ((n : Int), rest)
      else if c == '-' || c.toNat == 0x2212 then
        (offsetSize r).map fun (n, rest) => (-(n : Int), rest)
      else .error .invalid

/-- The point in time of a date and a time of day at an offset.  Second 60
    is the last second with a whole second more as its fraction. -/
def resolve (date : Date) (hour minute second nanos : Nat) (offset : Int) :
    Except Fault Timestamp :=
  if !date.isValid then .error .outOfRange
  else if 86400 ≤ offset.natAbs then .error .outOfRange
  else
    let leap := second = 60
    let local₀ := date.toDays * 86400 + (hour * 3600 + minute * 60 + min second 59 : Nat)
    let seconds := local₀ - offset
    if yearInRange (Date.ofDays (seconds.fdiv 86400)).year then
      .ok ⟨seconds, if leap then nanos + Nat.pow 10 9 else nanos⟩
    else .error .impossible

/-- Reads a time stamp. -/
def parse (s : String) : Except Fault Timestamp := do
  let (y, cs) ← year s.toList
  let cs ← mark '-' cs
  let (month, cs) ← field 1 12 cs
  let cs ← mark '-' cs
  let (day, cs) ← field 1 31 cs
  let cs ← dateEnd cs
  let (hour, cs) ← field 0 23 cs
  let cs ← mark ':' cs
  let (minute, cs) ← field 0 59 cs
  let cs ← mark ':' cs
  let (second, cs) ← field 0 60 cs
  let (nanos, cs) ← fraction cs
  let (shift, cs) ← offset (Text.trimStart cs)
  if !(Text.trimStart cs).isEmpty then throw .tooLong
  resolve ⟨y, month, day⟩ hour minute second nanos shift

/-! ## Writing -/

/-- A number with zeros in front, `width` digits at least. -/
def padded (width n : Nat) : String :=
  let digits := Nat.toDigits 10 n
  String.ofList (List.replicate (width - digits.length) '0' ++ digits)

/-- A year: four digits, or a sign and at least four if it is out of their
    range. -/
def yearText (year : Int) : String :=
  if 0 ≤ year ∧ year ≤ 9999 then padded 4 year.toNat
  else (if year < 0 then "-" else "+") ++ padded 4 year.natAbs

/-- A fraction with as few groups of three digits as hold it. -/
def fractionText (nanos : Nat) : String :=
  if nanos = 0 then ""
  else if nanos % 1000000 = 0 then "." ++ padded 3 (nanos / 1000000)
  else if nanos % 1000 = 0 then "." ++ padded 6 (nanos / 1000)
  else "." ++ padded 9 nanos

/-- The date and time of a time stamp, in universal time. -/
def dateTimeText (t : Timestamp) : String :=
  let date := Date.ofDays (t.seconds.fdiv 86400)
  let ofDay := (t.seconds - t.seconds.fdiv 86400 * 86400).toNat
  let leap := Nat.pow 10 9 ≤ t.nanos
  let second := if leap then ofDay % 60 + 1 else ofDay % 60
  let nanos := if leap then t.nanos - Nat.pow 10 9 else t.nanos
  yearText date.year ++ "-" ++ padded 2 date.month ++ "-" ++ padded 2 date.day ++ "T"
    ++ padded 2 (ofDay / 3600) ++ ":" ++ padded 2 (ofDay / 60 % 60) ++ ":" ++ padded 2 second
    ++ fractionText nanos

/-- A time stamp in universal time. -/
def text (t : Timestamp) : String := t.dateTimeText ++ "Z"

/-- A time stamp in universal time, with the offset in numbers. -/
def offsetText (t : Timestamp) : String := t.dateTimeText ++ "+00:00"

end Timestamp

end Blueprints.Time
