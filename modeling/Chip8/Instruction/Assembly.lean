import Chip8.Instruction.Word
import Chip8.Text.Hex

/-!
Assembly lines. A word is written as the name of an operation and its operands, for instance
`DRW V1, V2, 5`; a word that encodes no instruction is written as data.
-/

namespace Chip8

/-- An operand as an assembly line shows it. -/
inductive Operand
  | register (x : Register)
  | byte (k : UInt8)
  | target (t : Target)
  | word (w : Word)
  | rows (n : Fin 16)
  | index
  /-- The cells that I points at. -/
  | cells
  | delayTimer
  | soundTimer
  | keyPress
  | glyphOf
  | decimalOf
  deriving DecidableEq

/-- Numbers are hexadecimal, but for the height of a sprite. -/
def Operand.text : Operand → String
  | .register x => "V" ++ Hex.nibble x
  | .byte k => Hex.byte k
  | .target t => Hex.word 3 (UInt16.ofNat t.val)
  | .word w => Hex.word 4 w
  | .rows n => n.val.repr
  | .index => "I"
  | .cells => "[I]"
  | .delayTimer => "DT"
  | .soundTimer => "ST"
  | .keyPress => "K"
  | .glyphOf => "F"
  | .decimalOf => "B"

structure Assembly where
  operation : String
  operands : List Operand
  deriving DecidableEq

/-- The operands stand behind the operation, parted by commas. -/
def Assembly.text (line : Assembly) : String :=
  match line.operands with
  | [] => line.operation
  | operands => line.operation ++ " " ++ String.intercalate ", " (operands.map Operand.text)

/-- The line of a word, in the syntax that CHIP-8 assemblers share. It is looked up by the nibbles
of the word, apart from the decoder. -/
def Word.assembly (w : Word) : Assembly :=
  match w.nibbles with
  | (0x0, 0x0, 0xE, 0x0) => ⟨"CLS", []⟩
  | (0x0, 0x0, 0xE, 0xE) => ⟨"RET", []⟩
  | (0x0, _, _, _) => ⟨"SYS", [.target w.target]⟩
  | (0x1, _, _, _) => ⟨"JP", [.target w.target]⟩
  | (0x2, _, _, _) => ⟨"CALL", [.target w.target]⟩
  | (0x3, _, _, _) => ⟨"SE", [.register w.x, .byte w.low]⟩
  | (0x4, _, _, _) => ⟨"SNE", [.register w.x, .byte w.low]⟩
  | (0x5, _, _, 0x0) => ⟨"SE", [.register w.x, .register w.y]⟩
  | (0x6, _, _, _) => ⟨"LD", [.register w.x, .byte w.low]⟩
  | (0x7, _, _, _) => ⟨"ADD", [.register w.x, .byte w.low]⟩
  | (0x8, _, _, 0x0) => ⟨"LD", [.register w.x, .register w.y]⟩
  | (0x8, _, _, 0x1) => ⟨"OR", [.register w.x, .register w.y]⟩
  | (0x8, _, _, 0x2) => ⟨"AND", [.register w.x, .register w.y]⟩
  | (0x8, _, _, 0x3) => ⟨"XOR", [.register w.x, .register w.y]⟩
  | (0x8, _, _, 0x4) => ⟨"ADD", [.register w.x, .register w.y]⟩
  | (0x8, _, _, 0x5) => ⟨"SUB", [.register w.x, .register w.y]⟩
  | (0x8, _, _, 0x6) => ⟨"SHR", [.register w.x, .register w.y]⟩
  | (0x8, _, _, 0x7) => ⟨"SUBN", [.register w.x, .register w.y]⟩
  | (0x8, _, _, 0xE) => ⟨"SHL", [.register w.x, .register w.y]⟩
  | (0x9, _, _, 0x0) => ⟨"SNE", [.register w.x, .register w.y]⟩
  | (0xA, _, _, _) => ⟨"LD", [.index, .target w.target]⟩
  | (0xB, _, _, _) => ⟨"JP", [.register 0, .target w.target]⟩
  | (0xC, _, _, _) => ⟨"RND", [.register w.x, .byte w.low]⟩
  | (0xD, _, _, _) => ⟨"DRW", [.register w.x, .register w.y, .rows w.last]⟩
  | (0xE, _, 0x9, 0xE) => ⟨"SKP", [.register w.x]⟩
  | (0xE, _, 0xA, 0x1) => ⟨"SKNP", [.register w.x]⟩
  | (0xF, _, 0x0, 0x7) => ⟨"LD", [.register w.x, .delayTimer]⟩
  | (0xF, _, 0x0, 0xA) => ⟨"LD", [.register w.x, .keyPress]⟩
  | (0xF, _, 0x1, 0x5) => ⟨"LD", [.delayTimer, .register w.x]⟩
  | (0xF, _, 0x1, 0x8) => ⟨"LD", [.soundTimer, .register w.x]⟩
  | (0xF, _, 0x1, 0xE) => ⟨"ADD", [.index, .register w.x]⟩
  | (0xF, _, 0x2, 0x9) => ⟨"LD", [.glyphOf, .register w.x]⟩
  | (0xF, _, 0x3, 0x3) => ⟨"LD", [.decimalOf, .register w.x]⟩
  | (0xF, _, 0x5, 0x5) => ⟨"LD", [.cells, .register w.x]⟩
  | (0xF, _, 0x6, 0x5) => ⟨"LD", [.register w.x, .cells]⟩
  | _ => ⟨"DW", [.word w]⟩

def Word.mnemonic (w : Word) : String :=
  w.assembly.text

end Chip8
