import Chip8.Memory

/-!
Sources of programs. A source hands out bytes in pieces of its own choosing, and any single read
may be interrupted or fail. A program is read to its end before memory is touched.
-/

namespace Chip8

/-- What a single read of a source gives. -/
inductive Read
  /-- Some bytes. None at all mean that the end is reached. -/
  | bytes (chunk : List UInt8)
  /-- The read did not take place and has to be tried again. -/
  | interrupted
  /-- The read failed, for a reason in words. -/
  | failed (reason : String)
  deriving DecidableEq

/-- The reads that a source will answer, in order; after the last one comes the end. -/
abbrev Source := List Read

/-- All bytes up to the end, or the first failure on the way to it. -/
def Source.readToEnd : Source → Except Fault (List UInt8)
  | [] => .ok []
  | .bytes [] :: _ => .ok []
  | .bytes chunk :: rest => (Source.readToEnd rest).map (chunk ++ ·)
  | .interrupted :: rest => Source.readToEnd rest
  | .failed reason :: _ => .error (.unreadable reason)

namespace Memory

/-- Loads what a source holds, once all of it has been read. -/
def attemptLoadFrom (memory : Memory) (source : Source) : Attempt Memory Nat :=
  match source.readToEnd with
  | .ok program => memory.attemptLoad program
  | .error fault => .fail memory fault

/-- The size of what a source holds, and memory with that in it. -/
def loadFrom (memory : Memory) (source : Source) : Except Fault (Nat × Memory) :=
  (memory.attemptLoadFrom source).toExcept

end Memory

end Chip8
