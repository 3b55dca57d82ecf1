import ExprCheck.Limits
import ExprCheck.Moment
import ExprCheck.Text.Characters
import ExprCheck.Time.Date

/-!
Points in time, and their text with date, time of day and offset. Reading is
lenient: fields may be short, blanks may stand between them, and the offset has
several forms. Writing always gives universal time.
-/

namespace ExprCheck

structure Instant where
  /-- Days since the start of 1970. -/
  day : Int
  /-- Seconds since the start of the day. -/
  second : Nat
  /-- Nanoseconds since the start of the second; a leap second follows a second
  as its second half. -/
  nanos : Nat
deriving DecidableEq, Repr

namespace Instant

def epoch : Instant := ⟨0, 0, 0⟩

/-- The instant so many nanoseconds after the start of 1970. -/
def ofNanos (n : Int) : Instant where
  day := n / nanosPerSecond / 86400
  second := (n / nanosPerSecond % 86400).toNat
  nanos := (n % nanosPerSecond).toNat

/-! Writing -/

/-- Four digits, and a sign in front of what is no year of four digits. -/
def yearText (year : Int) : List Char :=
  if 0 ≤ year ∧ year ≤ 9999 then Text.padded 4 year.toNat
  else (if year < 0 then '-' else '+') :: Text.padded 4 year.natAbs

/-- Three, six or nine digits, whichever are needed, or none. -/
def fractionText (nanos : Nat) : List Char :=
  if nanos = 0 then []
  else if nanos % 1000000 = 0 then '.' :: Text.padded 3 (nanos / 1000000)
  else if nanos % 1000 = 0 then '.' :: Text.padded 6 (nanos / 1000)
  else '.' :: Text.padded 9 nanos

def text (t : Instant) : String :=
  let date := Date.ofDays t.day
  let second := t.second % 60 + t.nanos / nanosPerSecond
  String.ofList <|
    yearText date.year ++ '-' :: Text.padded 2 date.month ++ '-' :: Text.padded 2 date.day
      ++ 'T' :: Text.padded 2 (t.second / 3600) ++ ':' :: Text.padded 2 (t.second / 60 % 60)
      ++ ':' :: Text.padded 2 second ++ fractionText (t.nanos % nanosPerSecond) ++ ['Z']

/-! Reading -/

/-- Steps of reading, each of which takes characters from the front or fails. -/
abbrev Reading := StateT (List Char) Option

namespace Reading

def blanks : Reading Unit :=
  modify (·.dropWhile Text.isBlank)

/-- The next character, if it satisfies `p`. -/
def char (p : Char → Bool) : Reading Char := do
  match ← get with
  | c :: cs => if p c then set cs; return c else failure
  | [] => failure

/-- A number of 64 bits in digits, of which there are at least one and at most
`width`. -/
def number (width : Nat) : Reading Nat := do
  let cs ← get
  let digits := (cs.take width).takeWhile Char.isDigit
  if digits = [] then failure
  set (cs.drop digits.length)
  Text.decimalBelow? Number.signedBound digits

/-- A number of one or two digits after blanks. -/
def small : Reading Nat := do
  blanks
  number 2

/-- A year: with a sign it may have any number of digits. -/
def year : Reading Int := do
  blanks
  match ← get with
  | '-' :: cs => set cs; return -(← number cs.length)
  | '+' :: cs => set cs; number cs.length
  | _ => number 4

/-- A mark between two fields, with blanks around it. -/
def mark (c : Char) : Reading Unit := do
  blanks
  let _ ← char (· == c)

/-- The digits after a point, cut off after the ninth. -/
def fraction : Reading Nat := do
  match ← get with
  | '.' :: cs =>
    let digits := cs.takeWhile Char.isDigit
    if digits = [] then failure
    set (cs.drop digits.length)
    return Text.decimal ((digits ++ List.replicate 9 '0').take 9)
  | _ => return 0

def twoDigits : Reading Nat := do
  let tens ← char Char.isDigit
  let ones ← char Char.isDigit
  return Text.decimal [tens, ones]

/-- What follows a name of universal time, in upper or lower case. -/
def afterUniversal? : List Char → Option (List Char)
  | 'Z' :: cs | 'z' :: cs => some cs
  | cs =>
    if (cs.take 3).map Char.toUpper = ['U', 'T', 'C'] then some (cs.drop 3) else none

/-- Minutes by which the clock is ahead of universal time. -/
def offset : Reading Int := do
  match afterUniversal? (← get) with
  | some cs => set cs; return 0
  | none =>
    let sign ← char (fun c => c == '+' || c == '-' || c == '−')
    let hours ← twoDigits
    modify (·.dropWhile fun c => c == ':' || Text.isBlank c)
    let minutes ← twoDigits
    if 60 ≤ minutes ∨ 24 ≤ hours then failure
    let ahead : Int := 60 * hours + minutes
    return if sign == '+' then ahead else -ahead

/-- Date, time of day and offset. The sixtieth second of any minute may be followed
by a leap second. -/
def instant : Reading Instant := do
  let year ← year
  mark '-'
  let month ← small
  mark '-'
  let date := Date.mk year month (← small)
  let _ ← char (fun c => c == 'T' || c == 't' || c == ' ')
  let hour ← small
  mark ':'
  let minute ← small
  mark ':'
  let second ← small
  let nanos ← fraction
  blanks
  let ahead ← offset
  blanks
  unless date.isValid && hour < 24 && minute < 60 && second ≤ 60 do failure
  let clock : Int := 86400 * date.toDays + 3600 * hour + 60 * minute + min second 59
  let seconds := clock - 60 * ahead
  let day := seconds / 86400
  unless (Date.ofDays day).isValid do failure
  return ⟨day, (seconds % 86400).toNat, if second = 60 then nanosPerSecond + nanos else nanos⟩

end Reading

def parse? (cs : List Char) : Option Instant :=
  match Reading.instant.run cs with
  | some (t, []) => some t
  | _ => none

end Instant
end ExprCheck
