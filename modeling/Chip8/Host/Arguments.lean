import Chip8.Host.Options

/-!
Command lines. A command line names a program and may set options before or behind it, each as
`--name value` or `--name=value`; `--` ends the options.

A value is examined late: not when it is met but when the next option or the program is met, or
at the end. Until then it is pending, and an argument that makes no sense at all is reported
first.
-/

namespace Chip8

inductive Argument
  /-- Two dashes alone; behind them no argument is an option. -/
  | terminator
  /-- Two dashes and a name, as in `--name`, perhaps with a value, as in `--name=value`. -/
  | long (name : String) (value : Option String)
  /-- A dash and at least one letter. -/
  | short (letter : Char)
  /-- Anything else, a single dash included. -/
  | plain (text : String)
  deriving DecidableEq

def Argument.ofString (text : String) : Argument :=
  match text.toList with
  | ['-', '-'] => .terminator
  | '-' :: '-' :: rest =>
    .long (String.ofList (rest.takeWhile (· != '=')))
      (match rest.dropWhile (· != '=') with
        | [] => none
        | _ :: value => some (String.ofList value))
  | '-' :: letter :: _ => .short letter
  | _ => .plain text

inductive Pending
  | program (path : String)
  | setting (setting : Setting) (value : Option String)
  deriving DecidableEq

/-- How far a command line has been read. -/
structure Reading where
  given : Given := {}
  pending : Option Pending := none
  ended : Bool := false
  deriving DecidableEq

namespace Reading

/-- Examines what is pending. -/
def settle (reading : Reading) : Except UsageError Reading :=
  match reading.pending with
  | none => .ok reading
  | some (.program path) =>
    (reading.given.acceptProgram path).map ({ reading with given := ·, pending := none })
  | some (.setting _ none) => .error .missingValue
  | some (.setting setting (some value)) =>
    (reading.given.acceptSetting setting value).map ({ reading with given := ·, pending := none })

def hasProgram (reading : Reading) : Bool :=
  match reading.pending with
  | some (.program _) => true
  | _ => reading.given.program.isSome

/-- Meets the program; there is only one. -/
def meetProgram (reading : Reading) (path : String) : Except UsageError Reading :=
  if reading.hasProgram then .error .unknownArgument
  else reading.settle.map ({ · with pending := some (.program path) })

/-- Meets an argument that is no option: the value of a setting that lacks one, or the program. -/
def meetPlain (reading : Reading) (text : String) : Except UsageError Reading :=
  match reading.pending with
  | some (.setting setting none) =>
    .ok { reading with pending := some (.setting setting (some text)) }
  | _ => reading.meetProgram text

/-- Meets an option by its name, perhaps with a value. -/
def meetOption (reading : Reading) (name : String) (value : Option String) :
    Except UsageError Reading :=
  match OptionName.ofString? name, value with
  | none, _ => .error .unknownArgument
  | some (.setting setting), none =>
    reading.settle.map ({ · with pending := some (.setting setting none) })
  | some (.setting setting), some value => do
    let reading ← reading.settle
    let given ← reading.given.acceptSetting setting value
    return { reading with given := given }
  | some _, some _ => .error .surplusValue
  | some .help, none => do
    let _ ← reading.settle
    .error .helpRequested
  | some (.flag flag), none => do
    let reading ← reading.settle
    let given ← reading.given.acceptFlag flag
    return { reading with given := given }

def meet (reading : Reading) (text : String) : Except UsageError Reading :=
  if reading.ended then reading.meetProgram text
  else
    match Argument.ofString text with
    | .terminator => .ok { reading with ended := true }
    | .long name value => reading.meetOption name value
    | .short 'h' => reading.meetOption "help" none
    | .short _ => .error .unknownArgument
    | .plain text => reading.meetPlain text

end Reading

/-- What the arguments of a command line ask for; the name of the command is none of them. -/
def Options.parse (arguments : List String) : Except UsageError Options := do
  let reading ← arguments.foldlM Reading.meet {}
  let reading ← reading.settle
  reading.given.options

end Chip8
