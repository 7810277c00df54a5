import Chip8.Notice
import Chip8.Instruction.Assembly

/-!
The wording of notices. A line shows the level in capitals, then the text.
-/

namespace Chip8

/-- The name of a level. -/
def Level.name : Level → String
  | .error => "ERROR"
  | .warn => "WARN"
  | .info => "INFO"
  | .debug => "DEBUG"
  | .trace => "TRACE"

/-- A truth value in words. -/
def flagText (b : Bool) : String :=
  if b then "true" else "false"

/-- The settings, field by field. -/
def Config.text (config : Config) : String :=
  "Config \x7b cpu_frequency_hz: " ++ config.frequency.toNat.repr ++
    ", load_store_quirk: " ++ flagText config.keepIndex ++
    ", shift_quirk: " ++ flagText config.shiftInPlace ++
    ", overlapping_mode: " ++ flagText config.wrap ++
    ", strict: " ++ flagText config.strict ++ " \x7d"

/-- The lowest `width` decimal digits of a number, without the zeros at the end. -/
def fractionDigits : Nat → Nat → List Char
  | 0, _ => []
  | width + 1, n =>
    if n % 10 = 0 then fractionDigits width (n / 10)
    else
      let unit := Nat.pow 10 (width + 1)
      (Nat.toDigits 10 (unit + n % unit)).drop 1

/-- Nanoseconds as seconds: whole ones, then the digits of a fraction if there is one. -/
def secondsText (nanoseconds : Nat) : String :=
  let whole := (nanoseconds / 1000000000).repr
  match fractionDigits 9 (nanoseconds % 1000000000) with
  | [] => whole ++ "s"
  | digits => whole ++ "." ++ String.ofList digits ++ "s"

/-- A text filled up with blanks to a width. -/
def padded (width : Nat) (s : String) : String :=
  s ++ String.ofList (List.replicate (width - s.length) ' ')

/-- A signed number in decimal. -/
def signedText (n : Int) : String :=
  if n < 0 then "-" ++ n.natAbs.repr else n.natAbs.repr

/-- The text of a notice, without its level. -/
def Notice.text : Notice → String
  | .readBeyondMemory address => (Fault.outOfRange address).message ++ "; reading 0"
  | .writeBeyondMemory address value =>
    (Fault.outOfRange address).message ++ "; write of 0x" ++ Hex.byte value ++ " dropped"
  | .callWithoutReturn address =>
    (Fault.stackOverflow address).message ++ "; continuing without it"
  | .returnWithoutCall => Fault.stackUnderflow.message ++ "; ignoring return"
  | .pixelClipped x y =>
    "pixel (" ++ signedText x.toInt ++ ", " ++ signedText y.toInt ++
      ") is off screen and overlapping mode is off; clipping"
  | .unknownKey code => "ignoring unknown key code 0x" ++ Hex.byte code
  | .ticksSkipped lag => secondsText lag ++ " behind schedule, skipping the missed ticks"
  | .running config =>
    "running at " ++ config.frequency.toNat.repr ++ "Hz with " ++ config.text
  | .stopped => "stopped"
  | .unknownWord address word =>
    Hex.word 3 address ++ " unknown opcode " ++ Hex.word 4 word ++ ", skipping"
  | .awaitingKey x => "waiting for a key press for V" ++ Hex.nibble x
  | .keyStored code x =>
    "key " ++ Hex.word 1 code.toUInt16 ++ " pressed, stored in V" ++ Hex.nibble x
  | .soundOn => "sound on"
  | .soundOff => "sound off"
  | .executing address word v i sp =>
    Hex.word 3 address ++ " " ++ Hex.word 4 word ++ " " ++ padded 14 word.mnemonic ++ " v[" ++
      String.intercalate ", " (v.toList.map Hex.byte) ++ "] i" ++ Hex.word 4 i ++
      " sp" ++ signedText sp.toInt

/-- The whole line of a notice. -/
def Notice.line (notice : Notice) : String :=
  notice.level.name ++ " " ++ notice.text

end Chip8
