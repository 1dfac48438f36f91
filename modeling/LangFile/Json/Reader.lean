import LangFile.Json.Error
import LangFile.Json.Value
import LangFile.Text.Integer

/-!
# Reading JSON

The strict grammar, and the names `NaN`, `Infinity` and `-Infinity` as numbers. A string may hold no
control character below `U+0020`; an escaped high surrogate joins an escaped low one that follows
it, and any other escaped surrogate stays lone. White space is space, tab, line feed and carriage
return.

Each reader answers a value and the text that follows it. Arrays and objects are read to a fixed
depth, and the readers recur on the depth that is left.
-/

namespace LangFile.Json

/-- A reader: a value and the text after it. -/
abbrev Reader (α : Type) := Text → Except Error (α × Text)

/-- White space between tokens. -/
def isSpace (c : CodePoint) : Bool :=
  c = .scalar ' ' || c = .scalar '\t' || c = .scalar '\n' || c = .scalar '\r'

/-- The text without leading white space. -/
def skipSpace (t : Text) : Text := t.dropWhile isSpace

/-! ## Strings -/

/-- The value of four hexadecimal digits at the start of a text, when something follows them. -/
def fourHex? : Text → Option (Nat × Text)
  | a :: b :: c :: d :: e :: rest => do
    let a ← a.hexValue?
    let b ← b.hexValue?
    let c ← c.hexValue?
    let d ← d.hexValue?
    return (((a * 16 + b) * 16 + c) * 16 + d, e :: rest)
  | _ => none

/-- The code point of a number below `U+10000`. -/
def ofUnit (n : Nat) : CodePoint := (CodePoint.ofNat? n).getD (.scalar '\ufffd')

/-- The number is a high surrogate. -/
def isHigh (n : Nat) : Bool := 0xD800 ≤ n && n < 0xDC00

/-- The number is a low surrogate. -/
def isLow (n : Nat) : Bool := 0xDC00 ≤ n && n < 0xE000

/-- The code point that a high and a low surrogate stand for together. -/
def joinSurrogates (high low : Nat) : CodePoint :=
  ofUnit (0x10000 + (high - 0xD800) * 0x400 + (low - 0xDC00))

/-- Reads the escape that follows `\u`, and with a high surrogate the low one that may follow it.
`t` begins with the `u`. -/
def unicodeEscape (t : Text) : Except Error (CodePoint × Text) :=
  match fourHex? (t.drop 1) with
  | none => .error (.malformed .unicodeEscape t)
  | some (n, rest) =>
    match rest with
    | .scalar '\\' :: .scalar 'u' :: more =>
      if isHigh n && decide (4 < more.length) then
        match fourHex? more with
        | none => .error (.malformed .unicodeEscape (.scalar 'u' :: more))
        | some (m, after) =>
          if isLow m then .ok (joinSurrogates n m, after) else .ok (ofUnit n, rest)
      else .ok (ofUnit n, rest)
    | _ => .ok (ofUnit n, rest)

/-- The character that a backslash and `c` stand for. -/
def simpleEscape? (c : CodePoint) : Option CodePoint :=
  match c with
  | .scalar '"' => some (.scalar '"')
  | .scalar '\\' => some (.scalar '\\')
  | .scalar '/' => some (.scalar '/')
  | .scalar 'b' => some (.scalar '\x08')
  | .scalar 'f' => some (.scalar '\x0c')
  | .scalar 'n' => some (.scalar '\n')
  | .scalar 'r' => some (.scalar '\r')
  | .scalar 't' => some (.scalar '\t')
  | _ => none

/-- Reads the rest of a string, which began at `whole`; `done` holds what was read, last first.
Every round reads at least one code point, so `fuel` need not exceed the length of the text. -/
def stringRest (whole : Text) : (fuel : Nat) → (done : Text) → Reader Text
  | 0, _, _ => .error (.malformed .unterminatedString whole)
  | fuel + 1, done, t =>
    match t with
    | [] => .error (.malformed .unterminatedString whole)
    | .scalar '"' :: rest => .ok (done.reverse, rest)
    | .scalar '\\' :: rest =>
      match rest with
      | [] => .error (.malformed .unterminatedString whole)
      | .scalar 'u' :: _ =>
        match unicodeEscape rest with
        | .error e => .error e
        | .ok (c, after) => stringRest whole fuel (c :: done) after
      | c :: after =>
        match simpleEscape? c with
        | none => .error (.malformed .escape t)
        | some d => stringRest whole fuel (d :: done) after
    | c :: rest =>
      if c.toNat < 0x20 then .error (.malformed .controlCharacter t)
      else stringRest whole fuel (c :: done) rest

/-- Reads a string; `t` begins with its quotation mark. -/
def readString (t : Text) : Except Error (Text × Text) := stringRest t t.length [] (t.drop 1)

/-! ## Numbers and names -/

/-- Splits off the digits at the start of a text. -/
def digits (t : Text) : Text × Text := (t.takeWhile (·.isDigit), t.dropWhile (·.isDigit))

/-- The fraction at the start of a text: a point and at least one digit. -/
def fraction (t : Text) : Text × Text :=
  match t with
  | .scalar '.' :: rest =>
    let (ds, after) := digits rest
    if ds.isEmpty then ([], t) else (.scalar '.' :: ds, after)
  | _ => ([], t)

/-- The sign at the start of an exponent's digits. -/
def exponentSign (t : Text) : Text × Text :=
  match t with
  | c :: rest => if c = .scalar '+' || c = .scalar '-' then ([c], rest) else ([], t)
  | [] => ([], [])

/-- The exponent at the start of a text: `e`, perhaps a sign, and at least one digit. -/
def exponent (t : Text) : Text × Text :=
  match t with
  | c :: rest =>
    if c = .scalar 'e' || c = .scalar 'E' then
      let (sign, unsigned) := exponentSign rest
      let (ds, after) := digits unsigned
      if ds.isEmpty then ([], t) else (c :: sign ++ ds, after)
    else ([], t)
  | [] => ([], [])

/-- The minus sign at the start of a number. -/
def minusSign (t : Text) : Text × Text :=
  match t with
  | .scalar '-' :: rest => ([.scalar '-'], rest)
  | _ => ([], t)

/-- The whole part at the start of an unsigned number: a zero alone, or digits. -/
def wholePart (t : Text) : Text × Text :=
  match t with
  | .scalar '0' :: rest => ([.scalar '0'], rest)
  | _ => digits t

/-- Reads a number. -/
def readNumber (t : Text) : Except Error (Json × Text) :=
  let (sign, unsigned) := minusSign t
  let (whole, afterWhole) := wholePart unsigned
  if whole.isEmpty then .error (.malformed .value t)
  else
    let (frac, afterFrac) := fraction afterWhole
    let (expo, after) := exponent afterFrac
    if frac.isEmpty && expo.isEmpty && decide (Text.integerDigitLimit < whole.length) then
      .error (.longInteger whole.length)
    else .ok (.number (sign ++ whole ++ frac ++ expo), after)

/-- The values written as a name. -/
def names : List (String × Json) :=
  [("null", .null), ("true", .bool true), ("false", .bool false),
   ("NaN", .number "NaN"), ("Infinity", .number "Infinity"), ("-Infinity", .number "-Infinity")]

/-- Reads a value that is written as a name. -/
def named? (t : Text) : Option (Json × Text) :=
  names.findSome? fun (name, value) =>
    let name : Text := name
    if name.isPrefixOf t then some (value, t.drop name.length) else none

/-! ## Arrays and objects -/

/-- Reads the items of an array up to its bracket, the first of which begins the text; `done` holds
the items read, last first. -/
def itemsRest (value : Reader Json) : (fuel : Nat) → (done : List Json) → Reader (List Json)
  | 0, _, t => .error (.malformed .value t)
  | fuel + 1, done, t =>
    match value t with
    | .error e => .error e
    | .ok (v, rest) =>
      match skipSpace rest with
      | .scalar ']' :: after => .ok ((v :: done).reverse, after)
      | .scalar ',' :: more => itemsRest value fuel (v :: done) (skipSpace more)
      | other => .error (.malformed .comma other)

/-- Reads the members of an object up to its brace, the first of which begins the text; `done` holds
the members read, last first. -/
def membersRest (value : Reader Json) :
    (fuel : Nat) → (done : List (Text × Json)) → Reader (List (Text × Json))
  | 0, _, t => .error (.malformed .memberName t)
  | fuel + 1, done, t =>
    match t with
    | .scalar '"' :: _ =>
      match readString t with
      | .error e => .error e
      | .ok (name, afterName) =>
        match skipSpace afterName with
        | .scalar ':' :: afterColon =>
          match value (skipSpace afterColon) with
          | .error e => .error e
          | .ok (v, rest) =>
            match skipSpace rest with
            | .scalar '\x7d' :: after => .ok (((name, v) :: done).reverse, after)
            | .scalar ',' :: more =>
              membersRest value fuel ((name, v) :: done) (skipSpace more)
            | other => .error (.malformed .comma other)
        | other => .error (.malformed .colon other)
    | _ => .error (.malformed .memberName t)

/-- Reads the items of an array behind its bracket. -/
def readItems (value : Reader Json) : Reader (List Json) := fun t =>
  match skipSpace t with
  | .scalar ']' :: after => .ok ([], after)
  | inside => itemsRest value inside.length [] inside

/-- Reads the members of an object behind its brace, as they are written. -/
def readMembers (value : Reader Json) : Reader (List (Text × Json)) := fun t =>
  match skipSpace t with
  | .scalar '\x7d' :: after => .ok ([], after)
  | inside => membersRest value inside.length [] inside

/-- Reads a value that begins the text, with arrays and objects nested at most `depth` deep. -/
def readValue : (depth : Nat) → Reader Json
  | depth, t =>
    match t with
    | .scalar '"' :: _ =>
      match readString t with
      | .error e => .error e
      | .ok (s, rest) => .ok (.string s, rest)
    | .scalar '[' :: rest =>
      match depth with
      | 0 => .error (.malformed .nesting t)
      | depth + 1 =>
        match readItems (readValue depth) rest with
        | .error e => .error e
        | .ok (items, after) => .ok (.array items, after)
    | .scalar '\x7b' :: rest =>
      match depth with
      | 0 => .error (.malformed .nesting t)
      | depth + 1 =>
        match readMembers (readValue depth) rest with
        | .error e => .error e
        | .ok (members, after) => .ok (.object (collectMembers members), after)
    | _ =>
      match named? t with
      | some r => .ok r
      | none => readNumber t

/-- How deep arrays and objects may nest. The reader calls itself for each of them, so this stands for
the interpreter's recursion limit of a thousand calls, less those in which the program is when it
reads; that these are always ten is assumed. -/
def nestingLimit : Nat := 990

/-- The value that a whole text is the JSON of. -/
def parse (t : Text) : Except Error Json :=
  match t with
  | .scalar '\ufeff' :: _ => .error (.malformed .byteOrderMark t)
  | _ =>
    match readValue nestingLimit (skipSpace t) with
    | .error e => .error e
    | .ok (v, rest) =>
      match skipSpace rest with
      | [] => .ok v
      | extra => .error (.malformed .extraData extra)

end LangFile.Json
