import LangFile.Disk.File

/-!
# The log file

A call may keep a log. The file is named by a path on which steps up are carried out before it is
opened; it is made if need be, and what it holds already stays. Every line that is logged is added
at once, behind the time, so a file that is read later in the same call and is the log itself is
read with these lines.

## Main definitions

* `Log.start?`: opens the file.
* `Log.write`: adds lines.
* `Log.readBack`: the lines of a log file without their times.
-/

namespace LangFile.CommandLine

/-- A number in at least `width` decimal digits. -/
def paddedNumber (width n : Nat) : Text :=
  let digits := Text.ofNat n
  List.replicate (width - digits.length) (.scalar '0') ++ digits

/-- A date and a time of day. -/
structure Moment where
  year : Nat := 2000
  month : Nat := 1
  day : Nat := 1
  hour : Nat := 0
  minute : Nat := 0
  second : Nat := 0
  millisecond : Nat := 0
deriving DecidableEq

/-- The moment as `YYYY-MM-DD hh:mm:ss,mmm`. -/
def Moment.toText (m : Moment) : Text :=
  paddedNumber 4 m.year ++ "-" ++ paddedNumber 2 m.month ++ "-" ++ paddedNumber 2 m.day ++ " " ++
    paddedNumber 2 m.hour ++ ":" ++ paddedNumber 2 m.minute ++ ":" ++ paddedNumber 2 m.second ++
    "," ++ paddedNumber 3 m.millisecond

/-- A line as it stands in a log file. -/
def Moment.record (m : Moment) (line : Text) : Text := m.toText ++ " " ++ line ++ "\n"

/-- A log that is open: where its file is, and the time of the call. -/
structure Log where
  place : Location
  moment : Moment

namespace Log

/-- Opens the log at a path. -/
def start? (d : Disk) (p : Path) (moment : Moment) : Disk × Except FileError Log :=
  match d.openPlace p.collapse with
  | .error e => (d, .error e)
  | .ok place => ((d.touch p.collapse).1, .ok { place, moment })

/-- The bytes of a text in which no lone surrogate is left. -/
def bytesOf (t : Text) : List UInt8 :=
  t.flatMap fun
    | .scalar c => String.utf8EncodeChar c
    | .surrogate n => (("\\u" ++ Text.hexDigits 4 (0xD800 + n.val)).flatMap fun
      | .scalar c => String.utf8EncodeChar c
      | .surrogate _ => [])

/-- The disk with lines added to the log. -/
def write (log : Log) (d : Disk) (lines : List Text) : Disk :=
  d.append log.place (bytesOf (lines.flatMap log.moment.record))

/-- The code point ends a line of a log file. -/
def endsLine (c : CodePoint) : Bool :=
  [0x0A, 0x0B, 0x0C, 0x0D, 0x1C, 0x1D, 0x1E, 0x85, 0x2028, 0x2029].contains c.toNat

/-- The lines of a log file's text; there is none behind the last line end. -/
def linesOf : Text → List Text
  | [] => []
  | c :: cs =>
    if endsLine c then [] :: linesOf cs
    else match linesOf cs with
      | [] => [[c]]
      | line :: lines => (c :: line) :: lines

/-- What a moment and the blank behind it look like: a zero stands for any digit. -/
def momentShape : Text := "0000-00-00 00:00:00,000 "

/-- The line without the moment at its start, if there is one. -/
def dropMoment (line : Text) : Text :=
  let fits (p : CodePoint × CodePoint) : Bool :=
    if p.1 = .scalar '0' then p.2.isDigit else p.1 = p.2
  if momentShape.length ≤ line.length && (momentShape.zip line).all fits then
    line.drop momentShape.length
  else line

/-- The lines of the log file at a path, without their moments; none when it cannot be read. -/
def readBack (d : Disk) (p : Path) : List Text :=
  match d.readText p with
  | .ok t => (linesOf t).map dropMoment
  | .error _ => []

end Log

end LangFile.CommandLine
