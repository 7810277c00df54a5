import Chip8.Config
import Chip8.Text.Number

/-!
Options of the command. Some stand alone and some take a value; none may be given twice. What is
given is collected first, and completed by defaults in the end.
-/

namespace Chip8

structure Options where
  program : String
  config : Config
  /-- Window pixels per pixel of the screen. -/
  scale : UInt32
  /-- Whether to print a listing instead of running the program. -/
  disassemble : Bool
  deriving DecidableEq

/-- Why a command line asks for nothing that can be done. -/
inductive UsageError
  | helpRequested
  | missingProgram
  /-- An option that does not exist, or a second program. -/
  | unknownArgument
  | missingValue
  | emptyPath
  /-- Something other than `true` or `false`. -/
  | notATruthValue
  /-- Something other than a number within the bounds of its option. -/
  | notANumber
  | surplusValue
  | givenTwice
  deriving DecidableEq

inductive Flag
  | keepIndex
  | strict
  | disassemble
  deriving DecidableEq

inductive Setting
  | frequency
  | shiftInPlace
  | wrap
  | scale
  deriving DecidableEq

inductive OptionName
  | help
  | flag (flag : Flag)
  | setting (setting : Setting)
  deriving DecidableEq

/-- The option that a name means. Names are not abbreviated. -/
def OptionName.ofString? : String → Option OptionName
  | "help" => some .help
  | "load-store-quirk" => some (.flag .keepIndex)
  | "strict" => some (.flag .strict)
  | "disassemble" => some (.flag .disassemble)
  | "frequency" => some (.setting .frequency)
  | "shift-quirk" => some (.setting .shiftInPlace)
  | "overlapping" => some (.setting .wrap)
  | "scale" => some (.setting .scale)
  | _ => none

def boundedNumber (low high : Nat) (text : String) : Except UsageError UInt32 :=
  match wholeNumber? text with
  | some n => if low ≤ n ∧ n ≤ high then .ok (UInt32.ofNat n.toNat) else .error .notANumber
  | none => .error .notANumber

def truthValue : String → Except UsageError Bool
  | "true" => .ok true
  | "false" => .ok false
  | _ => .error .notATruthValue

/-- What has been given and accepted. -/
structure Given where
  program : Option String := none
  frequency : Option UInt32 := none
  shiftInPlace : Option Bool := none
  wrap : Option Bool := none
  scale : Option UInt32 := none
  keepIndex : Bool := false
  strict : Bool := false
  disassemble : Bool := false
  deriving DecidableEq

namespace Given

def hasSetting (given : Given) : Setting → Bool
  | .frequency => given.frequency.isSome
  | .shiftInPlace => given.shiftInPlace.isSome
  | .wrap => given.wrap.isSome
  | .scale => given.scale.isSome

def hasFlag (given : Given) : Flag → Bool
  | .keepIndex => given.keepIndex
  | .strict => given.strict
  | .disassemble => given.disassemble

def acceptFlag (given : Given) (flag : Flag) : Except UsageError Given :=
  if given.hasFlag flag then .error .givenTwice
  else
    match flag with
    | .keepIndex => .ok { given with keepIndex := true }
    | .strict => .ok { given with strict := true }
    | .disassemble => .ok { given with disassemble := true }

def acceptSetting (given : Given) (setting : Setting) (value : String) : Except UsageError Given :=
  if given.hasSetting setting then .error .givenTwice
  else
    match setting with
    | .frequency => (boundedNumber 0 (UInt32.size - 1) value).map ({ given with frequency := some · })
    | .shiftInPlace => (truthValue value).map ({ given with shiftInPlace := some · })
    | .wrap => (truthValue value).map ({ given with wrap := some · })
    | .scale => (boundedNumber 1 64 value).map ({ given with scale := some · })

def acceptProgram (given : Given) (path : String) : Except UsageError Given :=
  if path = "" then .error .emptyPath else .ok { given with program := some path }

/-- What is not given takes its default; only the program has none. -/
def options (given : Given) : Except UsageError Options :=
  match given.program with
  | none => .error .missingProgram
  | some program =>
    let default : Config := {}
    .ok {
      program := program
      config := {
        frequency := given.frequency.getD default.frequency
        keepIndex := given.keepIndex
        shiftInPlace := given.shiftInPlace.getD default.shiftInPlace
        wrap := given.wrap.getD default.wrap
        strict := given.strict }
      scale := given.scale.getD 10
      disassemble := given.disassemble }

end Given

end Chip8
