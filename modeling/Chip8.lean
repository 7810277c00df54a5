import Chip8.Proofs.Lockstep.Run
import Chip8.Main
import Chip8.Proofs.CallStack.Nesting
import Chip8.Proofs.Keys.Waiting
import Chip8.Proofs.Screen.Compositing
import Chip8.Proofs.Screen.Reordering
import Chip8.Proofs.Schedule.Rates
import Chip8.Proofs.Schedule.Splitting
import Chip8.Keys.Script
import Chip8.Notice.Text
import Chip8.Host.Keyboard
import Chip8.Schedule.Run
import Chip8.Screen.Texture
import Chip8.Sound.SquareWave
import Chip8.Proofs.Instruction.Encoding
import Chip8.Proofs.Machine.Footprint
import Chip8.Proofs.Machine.Successor
import Chip8.Proofs.Screen.Edges
import Chip8.Proofs.Circumstances.Instruction
import Chip8.Proofs.Circumstances.Step
import Chip8.Proofs.Circumstances.Settings
import Chip8.Proofs.Schedule.Course
import Chip8.Proofs.Schedule.Occurrences
import Chip8.Proofs.Schedule.Sound
import Chip8.Proofs.Circumstances.Timers
import Chip8.Proofs.Machine.Flags
import Chip8.Proofs.Machine.Refusal
import Chip8.Proofs.Machine.Overreach
import Chip8.Proofs.Schedule.Silence
import Chip8.Proofs.Keys.History
import Chip8.Proofs.Schedule.Batches
import Chip8.Proofs.Schedule.Retries
import Chip8.Proofs.Schedule.Rounds
import Chip8.Proofs.Schedule.Postponing
import Chip8.Proofs.Schedule.Restart
import Chip8.Proofs.Memory.Loading
import Chip8.Proofs.Memory.History
import Chip8.Proofs.CallStack.Bounded
import Chip8.Proofs.Random.Draws
import Chip8.Proofs.Random.Sequences
import Chip8.Proofs.Screen.Windows
import Chip8.Proofs.Screen.Clipping
import Chip8.Proofs.Machine.Inverse
import Chip8.Proofs.Text.Numerals
import Chip8.Proofs.Instruction.Agreement
import Chip8.Proofs.Instruction.Mnemonic
import Chip8.Proofs.Machine.Warnings
import Chip8.Proofs.Listing
import Chip8.Proofs.Screen.Imaging
import Chip8.Proofs.Keys.Polling
import Chip8.Proofs.Schedule.Laps
