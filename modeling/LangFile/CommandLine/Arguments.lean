import LangFile.Text.Digit
import LangFile.Text.Display
import LangFile.Validation

/-!
# Command line arguments

Options may stand anywhere before a double dash, and a long one may be shortened as long as only one
option begins so. The files are the arguments of the first unbroken row; arguments of later rows are
not recognised.

## Reading in two steps

* `Word.ofText` sorts the arguments one by one: option, separator, or plain argument.
* `Arguments.read` takes the words from left to right and stops at the first mistake or at a call
  for help.
-/

namespace LangFile.CommandLine

/-- The options. -/
inductive Flag
  | help
  | referenceName
  | check
  | logFile
  | previewHtml
deriving DecidableEq

namespace Flag

/-- Every option in the order of the help text. -/
def all : List Flag := [help, referenceName, check, logFile, previewHtml]

/-- The long spelling. -/
def long : Flag → String
  | help => "--help"
  | referenceName => "--reference-name"
  | check => "--check"
  | logFile => "--log-file"
  | previewHtml => "--preview-html"

/-- The name by which a message refers to the option. -/
def title : Flag → String
  | help => "-h/--help"
  | f => f.long

/-- The option is followed by a value. -/
def takesValue : Flag → Bool
  | referenceName => true
  | logFile => true
  | _ => false

end Flag

/-- What is wrong with a command line. -/
inductive Misuse
  | ambiguous (arg : Text) (flags : List Flag)
  | valueExpected (flag : Flag)
  | valueIgnored (flag : Flag) (value : Text)
  | filesRequired
  | unrecognized (args : List Text)
deriving DecidableEq

/-- The wording of a misuse. -/
def Misuse.message : Misuse → Text
  | ambiguous arg flags => "ambiguous option: " ++ arg ++ " could match " ++
      Text.joinWith ", " (flags.map fun f => Text.ofString f.long)
  | valueExpected flag => "argument " ++ Text.ofString flag.title ++ ": expected one argument"
  | valueIgnored flag value => "argument " ++ Text.ofString flag.title ++
      ": ignored explicit argument " ++ Text.display value
  | filesRequired => "the following arguments are required: files"
  | unrecognized args => "unrecognized arguments: " ++ Text.joinWith " " args

/-- An argument as it is sorted before the command line is read. -/
inductive Word
  /-- Not an option. -/
  | plain (arg : Text)
  /-- The double dash behind which there are no options. -/
  | separator
  /-- An option in its long spelling, with the value behind an equals sign. -/
  | long (flag : Flag) (value : Option Text)
  /-- The short option for help, with what is attached to it: the letters behind it, or a value
  behind an equals sign. -/
  | short (attached : Option Text)
  /-- An option that there is not. -/
  | unknown (arg : Text)
deriving DecidableEq

/-- Cuts an argument at its first equals sign. -/
def splitValue (arg : Text) : Text × Option Text :=
  let name := arg.takeWhile (· ≠ .scalar '=')
  if name.length = arg.length then (arg, none) else (name, some (arg.drop (name.length + 1)))

/-- Decimal digits of any script, or a point before the last of them; there is at least one digit,
and behind a point too. -/
def isDecimal (t : Text) : Bool :=
  match t.dropWhile (·.isDecimalDigit) with
  | [] => !t.isEmpty
  | c :: fraction => c = .scalar '.' && !fraction.isEmpty && fraction.all (·.isDecimalDigit)

/-- A dash and a decimal number. A line feed at the end does not count. -/
def isNegativeNumber (arg : Text) : Bool :=
  match arg with
  | .scalar '-' :: rest =>
    isDecimal (if rest.getLast? = some (.scalar '\n') then rest.dropLast else rest)
  | _ => false

namespace Word

/-- An argument that is no spelling of an option: plain if it is a negative number or holds a space,
else an unknown option. -/
def other (arg : Text) : Word :=
  if isNegativeNumber arg || arg.contains (.scalar ' ') then plain arg else unknown arg

/-- Sorts an argument that begins with two dashes. -/
def ofLong (arg : Text) : Except Misuse Word :=
  let (name, value) := splitValue arg
  match Flag.all.find? fun f => Text.ofString f.long = name with
  | some flag => .ok (long flag value)
  | none =>
    match Flag.all.filter fun f => name.isPrefixOf (Text.ofString f.long) with
    | [] => .ok (other arg)
    | [flag] => .ok (long flag value)
    | flags => .error (.ambiguous arg flags)

/-- Sorts an argument. -/
def ofText (arg : Text) : Except Misuse Word :=
  match arg with
  | .scalar '-' :: .scalar '-' :: _ => if arg = "--" then .ok separator else ofLong arg
  | [.scalar '-'] => .ok (plain arg)
  | [.scalar '-', .scalar 'h'] => .ok (short none)
  | .scalar '-' :: .scalar 'h' :: .scalar '=' :: value => .ok (short (some value))
  | .scalar '-' :: .scalar 'h' :: letters => .ok (short (some letters))
  | .scalar '-' :: _ => .ok (other arg)
  | _ => .ok (plain arg)

/-- Sorts all arguments; behind a double dash all are plain. -/
def ofTexts : List Text → Except Misuse (List Word)
  | [] => .ok []
  | arg :: args =>
    match ofText arg with
    | .error e => .error e
    | .ok separator => .ok (separator :: args.map plain)
    | .ok w => (ofTexts args).map (w :: ·)

end Word

/-- Options and files. An option whose value is a double dash has no value: without a name there is
no reference, and without a path no log. -/
structure Options where
  files : List Text := []
  referenceName : Option Text := some Validation.defaultReferenceName
  check : Bool := false
  logFile : Option Text := none
  previewHtml : Bool := false
deriving DecidableEq

/-- The value that is meant by what is written behind an option. -/
def meantValue (value : Text) : Option Text := if value = "--" then none else some value

/-- The options with one more set. An empty path stands for no log. -/
def Options.set (o : Options) (flag : Flag) (value : Text) : Options :=
  match flag with
  | .help => o
  | .referenceName => { o with referenceName := meantValue value }
  | .check => { o with check := true }
  | .logFile => { o with logFile := (meantValue value).filter (!·.isEmpty) }
  | .previewHtml => { o with previewHtml := true }

/-- What a command line asks for. -/
inductive Request
  | help
  | misuse (m : Misuse)
  | run (o : Options)
deriving DecidableEq

/-- Which part of the row of files has been read. -/
inductive Row
  | before
  | inside
  | behind
deriving DecidableEq

/-- The state of reading: the options so far, the row of files, and what was not recognised. -/
structure Arguments where
  options : Options := {}
  row : Row := .before
  extras : List Text := []

namespace Arguments

/-- The row of files is over once an option follows it. -/
def closeRow (a : Arguments) : Arguments :=
  if a.row = .inside then { a with row := .behind } else a

/-- One more plain argument. -/
def plain (a : Arguments) (arg : Text) : Arguments :=
  if a.row = .behind then { a with extras := a.extras ++ [arg] }
  else { a with row := .inside, options := { a.options with files := a.options.files ++ [arg] } }

/-- Reads what is attached to the short option for help. More of the same letter asks for help
again; anything else is a value, for which the option has no use. -/
def shortHelp (attached : Text) : Request :=
  let rest := attached.dropWhile (· = .scalar 'h')
  if rest.isEmpty && !attached.isEmpty then .help else .misuse (.valueIgnored .help rest)

/-- What is asked for when all words are read. -/
def finish (a : Arguments) : Request :=
  if a.row = .before then .misuse .filesRequired
  else if a.extras.isEmpty then .run a.options
  else .misuse (.unrecognized a.extras)

/-- Reads the words that are left. -/
def read (a : Arguments) : List Word → Request
  | [] => a.finish
  | .plain arg :: rest => (a.plain arg).read rest
  | .separator :: rest =>
    (if a.row = .behind then { a with extras := a.extras ++ [Text.ofString "--"] } else a).read rest
  | .unknown arg :: rest => { a.closeRow with extras := a.extras ++ [arg] }.read rest
  | .short none :: _ => .help
  | .short (some attached) :: _ => shortHelp attached
  | .long flag (some value) :: rest =>
    if flag.takesValue then
      { a.closeRow with options := a.options.set flag value }.read rest
    else .misuse (.valueIgnored flag value)
  | .long .help none :: _ => .help
  | .long flag none :: rest =>
    if flag.takesValue then
      match rest with
      | .plain value :: rest => { a.closeRow with options := a.options.set flag value }.read rest
      | _ => .misuse (.valueExpected flag)
    else { a.closeRow with options := a.options.set flag [] }.read rest

end Arguments

/-- What the arguments ask for. -/
def Request.ofTexts (args : List Text) : Request :=
  match Word.ofTexts args with
  | .error m => .misuse m
  | .ok words => ({} : Arguments).read words

/-- How the program is called. -/
def usage : String :=
  "usage: mclang [-h] [--reference-name REFERENCE_NAME] [--check]\n" ++
  "              [--log-file LOG_FILE] [--preview-html]\n" ++
  "              files [files ...]\n"

/-- The help text. -/
def helpText : String :=
  usage ++
  "\n" ++
  "Minecraft language file editor in Textual\n" ++
  "\n" ++
  "positional arguments:\n" ++
  "  files                 language files to open\n" ++
  "\n" ++
  "options:\n" ++
  "  -h, --help            show this help message and exit\n" ++
  "  --reference-name REFERENCE_NAME\n" ++
  "                        reference file name looked up beside each file\n" ++
  "                        (default: en_us.json)\n" ++
  "  --check               print findings and exit (1 when errors are found)\n" ++
  "  --log-file LOG_FILE   write debug log to this file\n" ++
  "  --preview-html        print the HTML preview page of each file and exit\n"

end LangFile.CommandLine
