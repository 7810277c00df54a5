import Chip8.Proofs.Screen.Flipping

/-!
Clipping. A screen with open edges drops the points that lie off the grid, and remarks on the first
one it ever drops. The remark is made once in the life of a screen, and it makes no difference to
what the screen shows.
-/

namespace Chip8

/-- What can be asked of a screen. Every sprite comes with the memory that it is drawn from. -/
inductive ScreenCall
  | draw (memory : Memory) (x y : Int32) (address : UInt16) (rows : UInt8)
  | setPixel (x y : Int32) (lit : Bool)
  | clear
  | lit (x y : Nat)
  | byteAt (x y : Nat)
  | pixels

/-- What a call of a screen comes to. -/
inductive ScreenAnswer
  | done
  | collision (collided : Bool)
  | lit (isLit : Bool)
  | byte (value : UInt8)
  | pixels (all : Vector Bool 2048)

/-- A raw point in 32-bit coordinates, which wrap around. -/
def shortened (point : Int × Int) : Int32 × Int32 :=
  (Int32.ofInt point.1, Int32.ofInt point.2)

/-- The points that a call is about to change, in order: those of the lit pixels of a sprite, or
the one that is set, whatever it is set to. -/
def ScreenCall.rawPoints : ScreenCall → List (Int × Int)
  | .draw memory x y address rows => spritePoints memory x.toInt y.toInt address rows.toNat
  | .setPixel x y _ => [(x.toInt, y.toInt)]
  | .clear | .lit .. | .byteAt .. | .pixels => []

/-- The same points as a notice shows them. -/
def ScreenCall.points (call : ScreenCall) : List (Int32 × Int32) :=
  call.rawPoints.map shortened

/-- The first of some points that lands on no cell. -/
def firstMiss (wrap : Bool) (points : List (Int × Int)) : Option (Int × Int) :=
  points.find? fun point => Cell.locate wrap point.1 point.2 = none

/-- The point that a notice says was dropped. -/
def Notice.dropped? : Notice → Option (Int32 × Int32)
  | .pixelClipped x y => some (x, y)
  | _ => none

namespace Screen

def answer (screen : Screen) : ScreenCall → Logged (ScreenAnswer × Screen)
  | .draw memory x y address rows =>
    (fun drawn => (.collision drawn.collision, drawn.screen)) <$>
      screen.draw memory x.toInt y.toInt address rows.toNat
  | .setPixel x y lit => (fun screen => (.done, screen)) <$> screen.setPixel x.toInt y.toInt lit
  | .clear => pure (.done, screen.clear)
  | .lit x y => pure (.lit (screen.lit x y), screen)
  | .byteAt x y => pure (.byte (screen.byteAt x y), screen)
  | .pixels => pure (.pixels screen.pixels, screen)

/-- The answers to calls that are made one after another, and the screen that they end in. -/
def answers (screen : Screen) : List ScreenCall → Logged (List ScreenAnswer × Screen)
  | [] => pure ([], screen)
  | call :: later => do
    let first ← screen.answer call
    let rest ← first.2.answers later
    return (first.1 :: rest.1, rest.2)

/-- What becomes of the remark on dropped points while some points are changed: it is made at the
first of them that misses, unless it was made before. -/
structure Clips (before : Screen) (points : List (Int × Int)) (notices : List Notice)
    (after : Screen) : Prop where
  wrap : after.wrap = before.wrap
  clipNoted : after.clipNoted = (before.clipNoted || misses before.wrap points)
  dropped : notices.filterMap Notice.dropped? =
    if before.clipNoted then [] else ((firstMiss before.wrap points).map shortened).toList

end Screen

theorem misses_eq_isSome_firstMiss (wrap : Bool) (points : List (Int × Int)) :
    misses wrap points = (firstMiss wrap points).isSome := by
  rw [misses, firstMiss, Bool.eq_iff_iff, List.any_eq_true, List.find?_isSome]

theorem firstMiss_append (wrap : Bool) (points others : List (Int × Int)) :
    firstMiss wrap (points ++ others) = (firstMiss wrap points).or (firstMiss wrap others) :=
  List.find?_append

theorem misses_append (wrap : Bool) (points others : List (Int × Int)) :
    misses wrap (points ++ others) = (misses wrap points || misses wrap others) :=
  List.any_append

namespace Screen

namespace Clips

/-- Where no point is changed, nothing is remarked on. -/
theorem nil {before after : Screen} {notices : List Notice} (hWrap : after.wrap = before.wrap)
    (hNoted : after.clipNoted = before.clipNoted)
    (hNotices : notices.filterMap Notice.dropped? = []) : Clips before [] notices after where
  wrap := hWrap
  clipNoted := by simp [hNoted, misses]
  dropped := by simp [hNotices, firstMiss]

theorem append {before middle after : Screen} {points others : List (Int × Int)}
    {notices later : List Notice} (first : Clips before points notices middle)
    (second : Clips middle others later after) :
    Clips before (points ++ others) (notices ++ later) after where
  wrap := second.wrap.trans first.wrap
  clipNoted := by
    rw [second.clipNoted, first.clipNoted, first.wrap, misses_append, Bool.or_assoc]
  dropped := by
    rw [List.filterMap_append, first.dropped, second.dropped, first.clipNoted, first.wrap,
      firstMiss_append, misses_eq_isSome_firstMiss]
    cases before.clipNoted <;> cases firstMiss before.wrap points <;> simp

end Clips

variable (screen : Screen) {x y : Int}

end Screen

namespace Drawn

end Drawn

namespace Screen

/-- Whether two screens differ at most in what they have remarked on. -/
def LooksLike (other screen : Screen) : Prop :=
  other.pixels = screen.pixels ∧ other.wrap = screen.wrap

variable {screen other : Screen}

theorem LooksLike.draw (h : other.LooksLike screen) (memory : Memory) (x y : Int)
    (address : UInt16) (rows : Nat) :
    (other.draw memory x y address rows).value.collision =
        (screen.draw memory x y address rows).value.collision ∧
      (other.draw memory x y address rows).value.screen.LooksLike
        (screen.draw memory x y address rows).value.screen := by
  obtain ⟨hPixels, hWrap⟩ := h
  have hPixel := pixels_eq_iff.mp hPixels
  rw [value_draw, value_draw]
  refine ⟨?_, ?_, ?_⟩
  · rw [Bool.eq_iff_iff, Drawn.collision_flipAll, Drawn.collision_flipAll]
    simp only [hPixel, hWrap]
  · rw [pixels_eq_iff]
    intro cell
    rw [Drawn.pixel_flipAll, Drawn.pixel_flipAll, hPixel, hWrap]
  · rw [Drawn.wrap_flipAll, Drawn.wrap_flipAll, hWrap]

theorem LooksLike.setPixel (h : other.LooksLike screen) (x y : Int) (lit : Bool) :
    (other.setPixel x y lit).value.LooksLike (screen.setPixel x y lit).value := by
  obtain ⟨hPixels, hWrap⟩ := h
  unfold Screen.setPixel
  rw [hWrap]
  cases Cell.locate screen.wrap x y with
  | some cell => exact ⟨congrArg (·.set cell.index lit) hPixels, hWrap⟩
  | none =>
      dsimp only
      rw [value_clip, value_clip]
      exact ⟨hPixels, hWrap⟩

theorem LooksLike.answer (h : other.LooksLike screen) (call : ScreenCall) :
    (other.answer call).value.1 = (screen.answer call).value.1 ∧
      (other.answer call).value.2.LooksLike (screen.answer call).value.2 := by
  have hPixel := pixels_eq_iff.mp h.1
  cases call with
  | draw memory x y address rows =>
      obtain ⟨hCollision, hScreen⟩ := h.draw memory x.toInt y.toInt address rows.toNat
      exact ⟨congrArg ScreenAnswer.collision hCollision, hScreen⟩
  | setPixel x y lit => exact ⟨rfl, h.setPixel x.toInt y.toInt lit⟩
  | clear => exact ⟨rfl, rfl, h.2⟩
  | lit x y => exact ⟨congrArg ScreenAnswer.lit (hPixel _), h⟩
  | byteAt x y =>
      refine ⟨congrArg ScreenAnswer.byte ?_, h⟩
      simp only [byteAt, lit, hPixel]
  | pixels => exact ⟨congrArg ScreenAnswer.pixels h.1, h⟩

theorem LooksLike.answers (h : other.LooksLike screen) (history : List ScreenCall) :
    (other.answers history).value.1 = (screen.answers history).value.1 ∧
      (other.answers history).value.2.LooksLike (screen.answers history).value.2 := by
  induction history generalizing screen other with
  | nil => exact ⟨rfl, h⟩
  | cons call later ih =>
      obtain ⟨hFirst, hNext⟩ := h.answer call
      obtain ⟨hLater, hLast⟩ := ih hNext
      refine ⟨?_, hLast⟩
      change _ :: _ = _ :: _
      rw [hFirst, hLater]

end Screen

end Chip8
