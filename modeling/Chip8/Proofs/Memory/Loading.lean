import Chip8.Memory.Source
import Chip8.Proofs.Memory.Overlay

/-!
Loading from a source. What is loaded depends on the bytes that a source hands out up to its end,
and not on how they are cut into reads or how often a read is interrupted. A read that fails before
the end decides the result by itself, and a load that is refused leaves memory as it was.
-/

namespace Chip8

/-- The bytes that a read hands out. -/
def Read.handedOut : Read → List UInt8
  | .bytes chunk => chunk
  | .interrupted | .failed _ => []

/-- The reason that a failing read gives. -/
def Read.failure? : Read → Option String
  | .failed reason => some reason
  | .bytes _ | .interrupted => none

namespace Source

/-- The reads before the end, which is the first one without bytes. -/
def untilEnd (source : Source) : List Read :=
  source.takeWhile fun read => read ≠ .bytes []

/-- All bytes that are handed out before the end. -/
def content (source : Source) : List UInt8 :=
  source.untilEnd.flatMap Read.handedOut

/-- The reason of the first read that fails before the end, if one does. -/
def failure? (source : Source) : Option String :=
  source.untilEnd.findSome? Read.failure?

theorem untilEnd_cons {read : Read} (h : read ≠ .bytes []) (rest : Source) :
    untilEnd (read :: rest) = read :: untilEnd rest :=
  List.takeWhile_cons_of_pos (decide_eq_true h)

theorem content_cons {read : Read} (h : read ≠ .bytes []) (rest : Source) :
    content (read :: rest) = read.handedOut ++ content rest := by
  rw [content, untilEnd_cons h, List.flatMap_cons, content]

theorem failure?_cons {read : Read} (h : read ≠ .bytes []) (rest : Source) :
    failure? (read :: rest) = read.failure?.or (failure? rest) := by
  rw [failure?, untilEnd_cons h, List.findSome?_cons, failure?]
  cases read.failure? <;> rfl

/-- Reading to the end gives the first failure on the way or, without one, everything handed out. -/
theorem readToEnd_eq (source : Source) :
    source.readToEnd =
      source.failure?.elim (.ok source.content) fun reason => .error (.unreadable reason) := by
  fun_induction readToEnd source with
  | case1 => rfl
  | case2 => rfl
  | case3 chunk rest hChunk ih =>
      have hMore : Read.bytes chunk ≠ .bytes [] := by
        rintro ⟨rfl⟩
        exact hChunk rfl
      rw [ih, failure?_cons hMore, content_cons hMore, Read.failure?, Option.none_or]
      cases failure? rest <;> rfl
  | case4 rest ih =>
      rw [ih, failure?_cons (by decide), content_cons (by decide)]
      rfl
  | case5 reason rest =>
      rw [failure?_cons (by rintro ⟨⟩)]
      rfl

end Source

namespace Memory

variable (memory : Memory)

theorem attemptLoad_of_lt {program : List UInt8} (h : 3583 < program.length) :
    memory.attemptLoad program = .fail memory (.programTooLarge program.length 3583) :=
  if_pos h

/-- A program that fits lies over memory from cell 0x200 on. -/
theorem attemptLoad_of_le {program : List UInt8} (h : program.length ≤ 3583) :
    memory.attemptLoad program = .done (memory.overlay 0x200 program) program.length := by
  have hLoad : memory.attemptLoad program =
      .done (memory.install programStart.toNat program) program.length :=
    if_neg (Nat.not_lt.mpr h)
  rw [hLoad, install_eq_overlay]
  rfl

theorem state_attemptLoad (program : List UInt8) :
    (memory.attemptLoad program).state =
      if program.length ≤ 3583 then memory.overlay 0x200 program else memory := by
  by_cases hFits : program.length ≤ 3583
  · rw [memory.attemptLoad_of_le hFits, if_pos hFits]
    rfl
  · rw [memory.attemptLoad_of_lt (Nat.not_le.mp hFits), if_neg hFits]
    rfl

theorem attemptLoadFrom_of_failure {source : Source} {reason : String}
    (h : source.failure? = some reason) :
    memory.attemptLoadFrom source = .fail memory (.unreadable reason) := by
  rw [attemptLoadFrom, Source.readToEnd_eq, h]
  rfl

theorem attemptLoadFrom_of_no_failure {source : Source} (h : source.failure? = none) :
    memory.attemptLoadFrom source = memory.attemptLoad source.content := by
  rw [attemptLoadFrom, Source.readToEnd_eq, h]
  rfl

/-- A load of any kind that meets a fault leaves memory as it was. -/
theorem isAtomic_attemptLoadFrom (source : Source) :
    (memory.attemptLoadFrom source).IsAtomic memory := by
  cases h : source.failure? with
  | some reason =>
      rw [memory.attemptLoadFrom_of_failure h]
      exact Attempt.isAtomic_fail
  | none =>
      rw [memory.attemptLoadFrom_of_no_failure h]
      exact memory.isAtomic_attemptLoad source.content

/-- A source that fails before its end is refused for the reason of the first failure, however much
it has handed out by then. Any other source is loaded as its content would be, whatever the reads:
if that is too large it is refused, otherwise it replaces exactly as many cells as it has bytes,
from 0x200 on. Whatever the fault, memory is left as it was. -/
theorem loadFrom_depends_on_content (source : Source) :
    let attempt := memory.attemptLoadFrom source
    let size := source.content.length
    (∀ fault, attempt.answer = .error fault → attempt.state = memory) ∧
    (∀ reason, source.failure? = some reason →
      attempt.answer = .error (.unreadable reason) ∧ attempt.state = memory) ∧
    (source.failure? = none →
      attempt = memory.attemptLoad source.content ∧
      (3583 < size →
        attempt.answer = .error (.programTooLarge size 3583) ∧ attempt.state = memory) ∧
      (size ≤ 3583 →
        attempt.answer = .ok size ∧
        (∀ offset < size, attempt.state.cells[0x200 + offset]? = source.content[offset]?) ∧
        ∀ cell : Fin 4096, cell.val < 0x200 ∨ 0x200 + size ≤ cell.val →
          attempt.state.cells.get cell = memory.cells.get cell)) ∧
    ∀ other : Source, source.failure? = none → other.failure? = none →
      other.content = source.content → memory.attemptLoadFrom other = attempt := by
  intro attempt size
  refine ⟨memory.isAtomic_attemptLoadFrom source, ?_, ?_, ?_⟩
  · intro reason hFailure
    have hAttempt : attempt = .fail memory (.unreadable reason) :=
      memory.attemptLoadFrom_of_failure hFailure
    rw [hAttempt]
    exact ⟨rfl, rfl⟩
  · intro hFailure
    have hAttempt : attempt = memory.attemptLoad source.content :=
      memory.attemptLoadFrom_of_no_failure hFailure
    refine ⟨hAttempt, ?_, ?_⟩
    · intro hLarge
      rw [hAttempt, memory.attemptLoad_of_lt hLarge]
      exact ⟨rfl, rfl⟩
    · intro hFits
      rw [hAttempt, memory.attemptLoad_of_le hFits]
      refine ⟨rfl, ?_, ?_⟩
      · intro offset hOffset
        exact memory.getElem?_cells_overlay hOffset (by omega)
      · intro cell hOutside
        exact memory.get_cells_overlay_of_outside hOutside
  · intro other hFailure hOther hContent
    rw [memory.attemptLoadFrom_of_no_failure hOther, hContent]
    exact (memory.attemptLoadFrom_of_no_failure hFailure).symm

end Memory

end Chip8
