import Chip8.Host.Arguments
import Chip8.Screen.Texture
import Chip8.Listing
import Chip8.Schedule

/-!
Launches. From what a command line asks for, and from what opening the file of the program gave,
follows either all that is printed, or a scheduler that is ready to run in a window.
-/

namespace Chip8

/-- What a command prints and how it exits. -/
structure Report where
  code : UInt8
  stdout : String
  stderr : String
  deriving DecidableEq

/-- What a launch leads to. -/
inductive Launch
  | report (report : Report)
  | play (scheduler : Scheduler) (scale : UInt32)

/-- The lines below a failure that say what caused it, one cause behind the other. -/
def causesText : List String → String
  | [] => ""
  | [cause] => "\n\nCaused by:\n    " ++ cause
  | causes => "\n\nCaused by:" ++ String.join
    (causes.zipIdx.map fun (cause, n) => "\n    " ++ n.repr ++ ": " ++ cause)

def Report.failure (headline : String) (causes : List String) : Report where
  code := 1
  stdout := ""
  stderr := "Error: " ++ headline ++ causesText causes ++ "\n"

def usageText : String :=
  "Usage: chip8 [OPTIONS] <ROM>\n\nRuns a CHIP-8 ROM\n\n" ++
  "      --frequency <FREQUENCY>      Instructions executed per second\n" ++
  "      --load-store-quirk           Leave I untouched after Fx55/Fx65\n" ++
  "      --shift-quirk <true|false>   Shift Vx in place for 8xy6/8xyE\n" ++
  "      --overlapping <true|false>   Wrap sprites around the screen edges\n" ++
  "      --strict                     Halt on out of range memory and stack accesses\n" ++
  "      --scale <SCALE>              Window pixels per CHIP-8 pixel\n" ++
  "      --disassemble                Print a listing of the ROM and exit\n" ++
  "  -h, --help                       Print help\n"

/-- The report on a command line that asks for nothing that can be done. -/
def UsageError.report : UsageError → Report
  | .helpRequested => ⟨0, usageText, ""⟩
  | _ => ⟨2, "", usageText⟩

/-- The causes of a fault: its own text, and the reason that a source gave. -/
def Fault.causes : Fault → List String
  | .unreadable reason => [(Fault.unreadable reason).message, reason]
  | fault => [fault.message]

namespace Options

def printListing (options : Options) (opened : Except String Source) : Report :=
  let unable := "unable to read " ++ options.program
  match opened with
  | .error reason => .failure unable [reason]
  | .ok source =>
    match source.readToEnd with
    | .ok program =>
      ⟨0, String.join ((listing Memory.programStart program).map (· ++ "\n")), ""⟩
    | .error (.unreadable reason) => .failure unable [reason]
    | .error fault => .failure unable fault.causes

def prepare (options : Options) (random : RandomSource) (opened : Except String Source) : Launch :=
  match opened with
  | .error reason => .report (.failure ("unable to open " ++ options.program) [reason])
  | .ok source =>
    match (Machine.initial options.config random).loadFrom source with
    | .error fault => .report (.failure ("unable to load " ++ options.program) fault.causes)
    | .ok (_, machine) =>
      match Scheduler.ofMachine machine with
      | .error fault => .report (.failure fault.message [])
      | .ok scheduler => .play scheduler options.scale

/-- What a command line leads to once the file of the program has been opened. -/
def launch (options : Options) (random : RandomSource) (opened : Except String Source) : Launch :=
  if options.disassemble then .report (options.printListing opened)
  else options.prepare random opened

end Options

/-- What a command line leads to, where `openPath` opens the file at a path. -/
def Launch.ofArguments (arguments : List String) (random : RandomSource)
    (openPath : String → Except String Source) : Launch :=
  match Options.parse arguments with
  | .error error => .report error.report
  | .ok options => options.launch random (openPath options.program)

end Chip8
