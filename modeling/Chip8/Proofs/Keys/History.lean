import Chip8.Proofs.Keys.Presses
import Mathlib.Data.List.Basic
import Mathlib.Data.List.Induction

/-!
The history of a keypad: all calls made of a new one, whether a hand touches a key or a press is
polled. What is held down, what waits and what the polls find are told by the history alone.
-/

namespace Chip8

/-- What can be asked of a keypad. -/
inductive KeypadCall
  | touch (event : KeyEvent)
  | poll
  deriving DecidableEq

/-- A press that makes a key go down, and when it is made: the number of calls before it. -/
structure Press where
  time : Nat
  key : Key
  deriving DecidableEq

def KeyEvent.code : KeyEvent → UInt8
  | .press code | .release code => code

/-- Whether a call presses or releases what a code names. -/
def KeypadCall.touches (code : UInt8) : KeypadCall → Bool
  | .touch event => event.code = code
  | .poll => false

/-- What each element of a list brings, as the elements before it have it. -/
def gather {α β : Type} (bring : List α → α → Option β) (list : List α) : List β :=
  (List.range list.length).filterMap fun time => list[time]?.bind (bring (list.take time))

/-- Whether the latest press or release of a code was a press. -/
def PressedLast (history : List KeypadCall) (code : UInt8) : Prop :=
  (history.filter (·.touches code)).getLast? = some (.touch (.press code))

instance (history : List KeypadCall) (code : UInt8) : Decidable (PressedLast history code) :=
  inferInstanceAs (Decidable (_ = _))

/-- The press that a call makes: that of a key which has not been pressed since its release. -/
def press? (earlier : List KeypadCall) : KeypadCall → Option Press
  | .touch (.press code) =>
    if PressedLast earlier code then none
    else (Key.ofCode? code).map fun key => ⟨earlier.length, key⟩
  | .touch (.release _) | .poll => none

/-- The presses of a history that make a key go down, oldest first. -/
def effectivePresses (history : List KeypadCall) : List Press :=
  gather press? history

namespace Keypad

/-- What a call finds, and the keypad after it. -/
def answer (keypad : Keypad) : KeypadCall → Option UInt8 × Keypad
  | .touch event => (none, keypad.react event)
  | .poll => keypad.poll

def after (keypad : Keypad) (history : List KeypadCall) : Keypad :=
  history.foldl (fun keypad call => (keypad.answer call).2) keypad

/-- The codes that the polls of a history find. -/
def polled (history : List KeypadCall) : List UInt8 :=
  gather (fun earlier call => ((initial.after earlier).answer call).1) history

/-- The number of the oldest press that waits, if one does; those before it have been polled or
dropped. -/
def firstWaiting (history : List KeypadCall) : Nat :=
  (effectivePresses history).length - (initial.after history).presses.length

/-- The numbers of the presses that polls have found. -/
def delivered (history : List KeypadCall) : List Nat :=
  gather (fun earlier call =>
    ((initial.after earlier).answer call).1.map fun _ => firstWaiting earlier) history

end Keypad

theorem gather_append_singleton {α β : Type} (bring : List α → α → Option β) (list : List α)
    (last : α) : gather bring (list ++ [last]) = gather bring list ++ (bring list last).toList := by
  unfold gather
  rw [List.length_append, List.length_singleton, List.range_succ, List.filterMap_append]
  congr 1
  · refine List.filterMap_congr fun time hTime => ?_
    have hTime := List.mem_range.mp hTime
    rw [List.getElem?_append_left hTime, List.take_append_of_le_length (Nat.le_of_lt hTime)]
  · cases hLast : bring list last <;> simp [hLast]

theorem mem_gather {α β : Type} {bring : List α → α → Option β} {list : List α} {b : β} :
    b ∈ gather bring list ↔
      ∃ earlier a later, list = earlier ++ a :: later ∧ bring earlier a = some b := by
  simp only [gather, List.mem_filterMap, List.mem_range, Option.bind_eq_some_iff]
  constructor
  · rintro ⟨time, hTime, a, hAt, hBring⟩
    refine ⟨list.take time, a, list.drop (time + 1), ?_, hBring⟩
    obtain ⟨_, rfl⟩ := List.getElem?_eq_some_iff.mp hAt
    rw [List.getElem_cons_drop, List.take_append_drop]
  · rintro ⟨earlier, a, later, rfl, hBring⟩
    exact ⟨earlier.length, by simp, a, by simp, by simpa using hBring⟩

/-! ### Codes -/

theorem Key.ofCode?_eq_some_iff {code : UInt8} {key : Key} :
    Key.ofCode? code = some key ↔ key.code = code := by
  unfold ofCode? Key.code
  constructor
  · split
    · rintro ⟨rfl⟩
      simp
    · simp
  · rintro rfl
    have hKey : key.val < 256 := by omega
    simp [Nat.mod_eq_of_lt hKey]

theorem Key.ofCode?_eq_none_iff {code : UInt8} : Key.ofCode? code = none ↔ 15 < code.toNat := by
  unfold ofCode?
  split <;> simp <;> omega

theorem Key.toNat_code_le (key : Key) : key.code.toNat ≤ 15 := by
  have hSome : ofCode? key.code ≠ none := by
    rw [ofCode?_eq_some_iff.mpr rfl]
    exact Option.some_ne_none key
  exact Nat.not_lt.mp (ofCode?_eq_none_iff.not.mp hSome)

theorem Key.code_inj {key other : Key} : key.code = other.code ↔ key = other := by
  rw [← ofCode?_eq_some_iff, ofCode?_eq_some_iff.mpr rfl, Option.some.injEq, eq_comm]

/-- An event is that of a key, or its code is unknown. -/
theorem KeyEvent.cases_of_code (event : KeyEvent) :
    15 < event.code.toNat ∨ ∃ key : Key, event = .press key.code ∨ event = .release key.code := by
  cases hCode : Key.ofCode? event.code with
  | none => exact .inl (Key.ofCode?_eq_none_iff.mp hCode)
  | some key =>
      have hKey := Key.ofCode?_eq_some_iff.mp hCode
      cases event with
      | press code => exact .inr ⟨key, .inl (congrArg KeyEvent.press hKey.symm)⟩
      | release code => exact .inr ⟨key, .inr (congrArg KeyEvent.release hKey.symm)⟩

theorem KeypadCall.eq_of_touches {call : KeypadCall} {code : UInt8} (h : call.touches code) :
    call = .touch (.press code) ∨ call = .touch (.release code) := by
  rcases call with (other | other) | -
  · exact .inl (congrArg (fun code => touch (.press code)) (of_decide_eq_true h))
  · exact .inr (congrArg (fun code => touch (.release code)) (of_decide_eq_true h))
  · cases h

theorem pressedLast_append_singleton {history : List KeypadCall} {call : KeypadCall}
    {code : UInt8} :
    PressedLast (history ++ [call]) code ↔
      if call.touches code then call = .touch (.press code) else PressedLast history code := by
  unfold PressedLast
  rw [List.filter_append]
  cases hTouches : call.touches code <;> simp [hTouches]

/-! ### What is held -/

namespace Keypad

variable (keypad : Keypad) (history : List KeypadCall)

theorem after_append_singleton (call : KeypadCall) :
    keypad.after (history ++ [call]) = ((keypad.after history).answer call).2 := by
  rw [after, List.foldl_append]
  rfl

theorem react_of_unknown {event : KeyEvent} (h : 15 < event.code.toNat) :
    keypad.react event = keypad := by
  have hCode := Key.ofCode?_eq_none_iff.mpr h
  cases event with
  | press code => simp only [react, apply, show Key.ofCode? code = none from hCode]
  | release code => simp only [react, apply, show Key.ofCode? code = none from hCode]

theorem react_press (key : Key) : keypad.react (.press key.code) = keypad.pressKey key := by
  simp only [react, apply, Key.ofCode?_eq_some_iff.mpr rfl, Logged.value_pure]

theorem react_release (key : Key) : keypad.react (.release key.code) = keypad.releaseKey key := by
  simp only [react, apply, Key.ofCode?_eq_some_iff.mpr rfl, Logged.value_pure]

theorem held_pressKey (key other : Key) :
    (keypad.pressKey key).held.get other = if key = other then true else keypad.held.get other := by
  cases hHeld : keypad.held.get key with
  | false => rw [pressKey_of_up keypad key hHeld, get_set]
  | true =>
      rw [pressKey_of_down keypad key hHeld]
      split
      · next hSame => rw [← hSame, hHeld]
      · rfl

theorem held_releaseKey (key other : Key) :
    (keypad.releaseKey key).held.get other =
      if key = other then false else keypad.held.get other :=
  get_set key keypad.held other false

theorem held_poll : keypad.poll.2.held = keypad.held := by
  unfold poll
  split <;> rfl

/-- A call decides whether a key is held if it touches it, and leaves it alone otherwise. -/
theorem held_answer (call : KeypadCall) (key : Key) :
    (keypad.answer call).2.held.get key =
      if call.touches key.code then decide (call = .touch (.press key.code))
      else keypad.held.get key := by
  cases call with
  | poll => rw [answer, held_poll]; rfl
  | touch event =>
      rcases event.cases_of_code with hUnknown | ⟨other, rfl | rfl⟩
      · have hCode : event.code ≠ key.code := by
          rintro hSame
          have hKey := Key.ofCode?_eq_some_iff.mpr hSame.symm
          rw [Key.ofCode?_eq_none_iff.mpr hUnknown] at hKey
          cases hKey
        simp [answer, react_of_unknown keypad hUnknown, KeypadCall.touches, hCode]
      · rw [answer, react_press, held_pressKey]
        by_cases hSame : other = key
        · simp [KeypadCall.touches, KeyEvent.code, hSame]
        · simp [KeypadCall.touches, KeyEvent.code, Key.code_inj, hSame]
      · rw [answer, react_release, held_releaseKey]
        by_cases hSame : other = key
        · simp [KeypadCall.touches, KeyEvent.code, hSame]
        · simp [KeypadCall.touches, KeyEvent.code, Key.code_inj, hSame]

/-- A key is held as long as it has not been released since it was pressed. -/
theorem held_after (key : Key) :
    (initial.after history).held.get key = true ↔ PressedLast history key.code := by
  induction history using List.reverseRecOn with
  | nil =>
      have hUp : (Vector.replicate 16 false).get key = false := Vector.getElem_replicate key.isLt
      simp [after, initial, PressedLast, hUp]
  | append_singleton earlier call ih =>
      rw [after_append_singleton, held_answer, pressedLast_append_singleton]
      split
      · exact decide_eq_true_iff
      · exact ih

/-! ### What waits -/

theorem effectivePresses_append_singleton (call : KeypadCall) :
    effectivePresses (history ++ [call]) =
      effectivePresses history ++ (press? history call).toList :=
  gather_append_singleton press? history call

/-- A hand makes no effective press and leaves what waits alone, or it makes one that waits as the
latest. -/
theorem press?_cases (event : KeyEvent) :
    press? history (.touch event) = none ∧
        ((initial.after history).react event).presses = (initial.after history).presses ∨
      ∃ key, press? history (.touch event) = some ⟨history.length, key⟩ ∧
        ((initial.after history).react event).presses =
          enqueue (initial.after history).presses key := by
  rcases event.cases_of_code with hUnknown | ⟨key, rfl | rfl⟩
  · refine .inl ⟨?_, by rw [react_of_unknown _ hUnknown]⟩
    cases event with
    | press code =>
        have hCode : Key.ofCode? code = none := Key.ofCode?_eq_none_iff.mpr hUnknown
        simp [press?, hCode]
    | release code => rfl
  · rw [react_press]
    cases hHeld : (initial.after history).held.get key with
    | true =>
        rw [pressKey_of_down _ key hHeld]
        exact .inl ⟨if_pos ((held_after history key).mp hHeld), rfl⟩
    | false =>
        have hUp : ¬ PressedLast history key.code := by
          rw [← held_after, hHeld]
          exact Bool.false_ne_true
        rw [pressKey_of_up _ key hHeld]
        exact .inr ⟨key, by simp [press?, hUp, Key.ofCode?_eq_some_iff.mpr rfl], rfl⟩
  · rw [react_release]
    exact .inl ⟨rfl, rfl⟩

theorem poll_eq_head? : keypad.poll.1 = keypad.presses.head?.map Key.code := by
  unfold poll
  split <;> simp [*]

theorem presses_poll : keypad.poll.2.presses = keypad.presses.tail := by
  unfold poll
  split <;> simp [*]

theorem length_enqueue {presses : List Key} (h : presses.length ≤ capacity) (key : Key) :
    (enqueue presses key).length = min (presses.length + 1) capacity := by
  rw [enqueue, List.length_append, List.length_singleton]
  split
  · rw [List.length_drop]
    simp only [capacity] at *
    omega
  · omega

theorem enqueue_suffix (presses : List Key) (key : Key) :
    enqueue presses key <:+ presses ++ [key] := by
  unfold enqueue
  split
  · exact ⟨presses.take 1, by rw [← List.append_assoc, List.take_append_drop]⟩
  · exact List.suffix_refl _

/-- No more than the capacity waits, and what waits are the latest of the effective presses. -/
theorem waiting_after :
    (initial.after history).presses.length ≤ capacity ∧
      (initial.after history).presses <:+ (effectivePresses history).map Press.key := by
  induction history using List.reverseRecOn with
  | nil => exact ⟨Nat.zero_le _, List.nil_suffix⟩
  | append_singleton earlier call ih =>
      obtain ⟨hRoom, hLatest⟩ := ih
      rw [after_append_singleton, effectivePresses_append_singleton, List.map_append]
      cases call with
      | poll =>
          rw [answer, presses_poll, press?, Option.toList_none, List.map_nil, List.append_nil]
          refine ⟨?_, (List.tail_suffix _).trans hLatest⟩
          rw [List.length_tail]
          omega
      | touch event =>
          rw [answer]
          rcases press?_cases earlier event with ⟨hNone, hSame⟩ | ⟨key, hSome, hLater⟩
          · rw [hNone, hSame, Option.toList_none, List.map_nil, List.append_nil]
            exact ⟨hRoom, hLatest⟩
          · rw [hSome, hLater, length_enqueue hRoom]
            refine ⟨Nat.min_le_right _ _, (enqueue_suffix _ key).trans ?_⟩
            obtain ⟨front, hFront⟩ := hLatest
            exact ⟨front, by rw [← List.append_assoc, hFront]; rfl⟩

theorem length_presses_after_le :
    (initial.after history).presses.length ≤ (effectivePresses history).length := by
  have hLength := (waiting_after history).2.length_le
  rwa [List.length_map] at hLength

theorem presses_after :
    (initial.after history).presses =
      ((effectivePresses history).drop (firstWaiting history)).map Press.key := by
  have hDrop := List.suffix_iff_eq_drop.mp (waiting_after history).2
  rwa [List.length_map, ← List.map_drop] at hDrop

/-- A hand makes the number of the oldest press that waits no greater than the capacity demands. -/
theorem firstWaiting_touch (event : KeyEvent) :
    firstWaiting (history ++ [.touch event]) =
      max (firstWaiting history)
        ((effectivePresses (history ++ [.touch event])).length - capacity) := by
  have hRoom := (waiting_after history).1
  have hLength := length_presses_after_le history
  simp only [firstWaiting, after_append_singleton, effectivePresses_append_singleton, answer,
    List.length_append]
  rcases press?_cases history event with ⟨hNone, hSame⟩ | ⟨key, hSome, hLater⟩
  · rw [hNone, hSame, Option.toList_none, List.length_nil]
    omega
  · rw [hSome, hLater, length_enqueue hRoom, Option.toList_some, List.length_singleton]
    omega

/-- A poll finds the oldest press that waits. -/
theorem poll_after :
    (initial.after history).poll.1 =
      (effectivePresses history)[firstWaiting history]?.map (·.key.code) := by
  rw [poll_eq_head?, presses_after, List.head?_map, List.head?_drop, Option.map_map]
  rfl

/-- A poll that finds a press makes the next one the oldest. -/
theorem firstWaiting_poll :
    firstWaiting (history ++ [.poll]) =
      firstWaiting history + (initial.after history).poll.1.toList.length := by
  have hLength := length_presses_after_le history
  rw [firstWaiting, firstWaiting, after_append_singleton, answer, presses_poll, poll_eq_head?,
    effectivePresses_append_singleton, press?, Option.toList_none, List.append_nil]
  cases hWaiting : (initial.after history).presses with
  | nil => rfl
  | cons key rest =>
      rw [hWaiting] at hLength
      simp only [List.length_cons, List.tail_cons, List.head?_cons, Option.map_some,
        Option.toList_some, List.length_nil] at hLength ⊢
      omega

/-! ### What is polled and what is dropped -/

/-- Whether a press was dropped: when it was the oldest one that waited, the hand made another, so
that with this one as many came behind it as the capacity allows. -/
def Dropped (history : List KeypadCall) (index : Nat) : Prop :=
  ∃ earlier event later, history = earlier ++ .touch event :: later ∧
    firstWaiting earlier = index ∧
    (effectivePresses (earlier ++ [.touch event])).length = index + 1 + capacity

theorem Dropped.append_singleton {history : List KeypadCall} {index : Nat}
    (h : Dropped history index) (call : KeypadCall) : Dropped (history ++ [call]) index := by
  obtain ⟨earlier, event, later, rfl, hRest⟩ := h
  exact ⟨earlier, event, later ++ [call], by rw [List.append_assoc]; rfl, hRest⟩

theorem firstWaiting_le : firstWaiting history ≤ (effectivePresses history).length :=
  Nat.sub_le _ _

theorem delivered_append_singleton (call : KeypadCall) :
    delivered (history ++ [call]) = delivered history ++
      (((initial.after history).answer call).1.map fun _ => firstWaiting history).toList :=
  gather_append_singleton _ history call

theorem polled_append_singleton (call : KeypadCall) :
    polled (history ++ [call]) =
      polled history ++ ((initial.after history).answer call).1.toList :=
  gather_append_singleton _ history call

/-- Every press before the oldest one that waits was polled or dropped. -/
theorem mem_delivered_or_dropped {index : Nat} (h : index < firstWaiting history) :
    index ∈ delivered history ∨ Dropped history index := by
  induction history using List.reverseRecOn with
  | nil => exact absurd h (Nat.not_lt_zero index)
  | append_singleton earlier call ih =>
      rw [delivered_append_singleton, List.mem_append]
      by_cases hEarlier : index < firstWaiting earlier
      · exact (ih hEarlier).imp .inl fun hDropped => hDropped.append_singleton call
      · cases call with
        | poll =>
            rw [firstWaiting_poll] at h
            rw [answer]
            cases hPoll : (initial.after earlier).poll.1 with
            | none =>
                rw [hPoll] at h
                exact absurd h hEarlier
            | some code =>
                rw [hPoll, Option.toList_some, List.length_singleton] at h
                have hOldest : index = firstWaiting earlier := by omega
                exact .inl (.inr (by simp [hOldest]))
        | touch event =>
            have hRoom := (waiting_after earlier).1
            have hLength := length_presses_after_le earlier
            have hGrowth : (press? earlier (.touch event)).toList.length ≤ 1 :=
              Option.length_toList_le
            rw [firstWaiting_touch] at h
            refine .inr ⟨earlier, event, [], rfl, ?_⟩
            rw [effectivePresses_append_singleton, List.length_append] at h ⊢
            simp only [firstWaiting] at *
            omega

/-- The polls find effective presses by ascending numbers, all of them before the oldest one that
waits. -/
theorem delivered_ascending :
    (delivered history).Pairwise (· < ·) ∧
      ∀ index ∈ delivered history, index < firstWaiting history := by
  induction history using List.reverseRecOn with
  | nil => exact ⟨.nil, by simp [delivered, gather]⟩
  | append_singleton earlier call ih =>
      obtain ⟨hAscending, hBefore⟩ := ih
      rw [delivered_append_singleton]
      cases call with
      | touch event =>
          rw [answer, Option.map_none, Option.toList_none, List.append_nil, firstWaiting_touch]
          exact ⟨hAscending, fun index hIndex =>
            Nat.lt_of_lt_of_le (hBefore index hIndex) (Nat.le_max_left _ _)⟩
      | poll =>
          rw [firstWaiting_poll, answer]
          cases (initial.after earlier).poll.1 with
          | none => simpa using ⟨hAscending, hBefore⟩
          | some code =>
              simp only [Option.map_some, Option.toList_some, List.length_singleton]
              rw [List.pairwise_append]
              refine ⟨⟨hAscending, List.pairwise_singleton _ _, ?_⟩, ?_⟩
              · simpa using hBefore
              · intro index hIndex
                rcases List.mem_append.mp hIndex with hOld | hNew
                · have := hBefore index hOld
                  omega
                · rw [List.mem_singleton.mp hNew]
                  omega

/-- The codes found by polls are those of the presses with the numbers delivered. -/
theorem polled_eq :
    (polled history).map some =
      (delivered history).map fun index => (effectivePresses history)[index]?.map (·.key.code) := by
  induction history using List.reverseRecOn with
  | nil => rfl
  | append_singleton earlier call ih =>
      have hSame : (delivered earlier).map
          (fun index => (effectivePresses (earlier ++ [call]))[index]?.map (·.key.code)) =
            (polled earlier).map some := by
        rw [ih]
        refine List.map_congr_left fun index hIndex => ?_
        have hOld := (delivered_ascending earlier).2 index hIndex
        have hLength := firstWaiting_le earlier
        rw [effectivePresses_append_singleton, List.getElem?_append_left (by omega)]
      rw [polled_append_singleton, delivered_append_singleton, List.map_append, List.map_append,
        hSame]
      congr 1
      cases call with
      | touch event => rfl
      | poll =>
          have hPoll := poll_after earlier
          rw [answer, effectivePresses_append_singleton, press?, Option.toList_none,
            List.append_nil]
          cases hCode : (initial.after earlier).poll.1 with
          | none => rfl
          | some code =>
              rw [hCode] at hPoll
              simp [← hPoll]

end Keypad

/-! ### Presses of one key -/

theorem press?_eq_some {earlier : List KeypadCall} {call : KeypadCall} {press : Press}
    (h : press? earlier call = some press) :
    call = .touch (.press press.key.code) ∧ ¬ PressedLast earlier press.key.code ∧
      press.time = earlier.length := by
  unfold press? at h
  split at h
  · next code =>
      split at h
      · cases h
      · next hUp =>
          obtain ⟨key, hKey, rfl⟩ := Option.map_eq_some_iff.mp h
          rw [Key.ofCode?_eq_some_iff] at hKey
          subst hKey
          exact ⟨rfl, hUp, rfl⟩
  · cases h
  · cases h

/-- After a press that is not the latest touch of its code, there is a release. -/
theorem release_mem_of_not_pressedLast {before after : List KeypadCall} {code : UInt8}
    (h : ¬ PressedLast (before ++ .touch (.press code) :: after) code) :
    .touch (.release code) ∈ after := by
  induction after using List.reverseRecOn with
  | nil =>
      rw [pressedLast_append_singleton] at h
      simp [KeypadCall.touches, KeyEvent.code] at h
  | append_singleton rest call ih =>
      rw [← List.cons_append, ← List.append_assoc, pressedLast_append_singleton] at h
      rw [List.mem_append, List.mem_singleton]
      split at h
      · next hTouches =>
          rcases KeypadCall.eq_of_touches hTouches with hPress | hRelease
          · exact absurd hPress h
          · exact .inr hRelease.symm
      · exact .inl (ih h)

theorem effectivePresses_ascending (history : List KeypadCall) :
    (effectivePresses history).Pairwise (·.time < ·.time) := by
  induction history using List.reverseRecOn with
  | nil => exact .nil
  | append_singleton earlier call ih =>
      rw [effectivePresses, gather_append_singleton, List.pairwise_append]
      refine ⟨ih, by cases press? earlier call <;> simp, fun press hPress latest hLatest => ?_⟩
      obtain ⟨before, other, after, rfl, hBefore⟩ := mem_gather.mp hPress
      rw [(press?_eq_some (Option.mem_toList.mp hLatest)).2.2, (press?_eq_some hBefore).2.2]
      simp

/-- Between two effective presses of a key it is released. -/
theorem exists_release_between {history : List KeypadCall} {i j : Nat} {one other : Press}
    (hOrder : i < j) (hOne : (effectivePresses history)[i]? = some one)
    (hOther : (effectivePresses history)[j]? = some other) (hKey : one.key = other.key) :
    ∃ time, one.time < time ∧ time < other.time ∧
      history[time]? = some (.touch (.release one.key.code)) := by
  have hTimes : one.time < other.time := by
    obtain ⟨hI, rfl⟩ := List.getElem?_eq_some_iff.mp hOne
    obtain ⟨hJ, rfl⟩ := List.getElem?_eq_some_iff.mp hOther
    exact List.pairwise_iff_getElem.mp (effectivePresses_ascending history) i j hI hJ hOrder
  obtain ⟨before, call, after, hHistory, hCall⟩ := mem_gather.mp (List.mem_of_getElem? hOne)
  obtain ⟨rfl, -, hOneTime⟩ := press?_eq_some hCall
  obtain ⟨earlier, call, later, hLater, hCall⟩ := mem_gather.mp (List.mem_of_getElem? hOther)
  obtain ⟨-, hUp, hOtherTime⟩ := press?_eq_some hCall
  rw [← hKey] at hUp
  rw [hOneTime, hOtherTime] at hTimes ⊢
  -- The earlier press is one of the calls before the later one, so the release is behind it.
  obtain ⟨middle, rfl⟩ : ∃ middle, earlier = before ++ .touch (.press one.key.code) :: middle := by
    rcases List.append_eq_append_iff.mp (hHistory.symm.trans hLater) with
      ⟨behind, rfl, hBehind⟩ | ⟨behind, rfl, -⟩
    · cases behind with
      | nil => simp at hTimes
      | cons first middle =>
          rw [List.cons_append] at hBehind
          exact ⟨middle, by rw [(List.cons.inj hBehind).1]⟩
    · rw [List.length_append] at hTimes
      omega
  obtain ⟨front, back, rfl⟩ := List.append_of_mem (release_mem_of_not_pressedLast hUp)
  refine ⟨before.length + (front.length + 1), by omega, ?_, ?_⟩
  · simp
  · rw [hLater]
    simp

namespace Keypad

theorem isHeld_iff (keypad : Keypad) (code : UInt8) :
    keypad.isHeld code = true ↔ ∃ key : Key, key.code = code ∧ keypad.held.get key = true := by
  unfold isHeld
  cases hCode : Key.ofCode? code with
  | none =>
      refine ⟨fun hFalse => absurd hFalse Bool.false_ne_true, fun ⟨key, hKey, _⟩ => ?_⟩
      rw [Key.ofCode?_eq_some_iff.mpr hKey] at hCode
      cases hCode
  | some key =>
      refine ⟨fun hHeld => ⟨key, Key.ofCode?_eq_some_iff.mp hCode, hHeld⟩, ?_⟩
      rintro ⟨other, hOther, hHeld⟩
      rw [← Key.ofCode?_eq_some_iff.mp hCode, Key.code_inj] at hOther
      exact hOther ▸ hHeld

theorem isHeld_after (history : List KeypadCall) (code : UInt8) :
    (initial.after history).isHeld code = true ↔ code.toNat ≤ 15 ∧ PressedLast history code := by
  rw [isHeld_iff]
  constructor
  · rintro ⟨key, rfl, hHeld⟩
    exact ⟨key.toNat_code_le, (held_after history key).mp hHeld⟩
  · rintro ⟨hCode, hPressed⟩
    obtain ⟨key, hKey⟩ := Option.ne_none_iff_exists'.mp
      (Key.ofCode?_eq_none_iff.not.mpr (Nat.not_lt.mpr hCode))
    have hCode := Key.ofCode?_eq_some_iff.mp hKey
    exact ⟨key, hCode, (held_after history key).mpr (hCode ▸ hPressed)⟩

/-- Whatever is asked of a new keypad, a code is held exactly if it is that of a key and its latest
press or release was a press. What waits to be polled are the latest effective presses, at most
sixteen; a poll that finds one moves their beginning up by one, and a hand moves it up only as far
as sixteen demand. The polls find effective presses in order, none of them twice, and one that is
passed over had sixteen later ones behind it. An unknown code changes nothing, and between two
effective presses of a key it is released. -/
theorem follows_history (history : List KeypadCall) :
    let keypad := initial.after history
    let made := effectivePresses history
    let first := firstWaiting history
    (∀ code, keypad.isHeld code = true ↔ code.toNat ≤ 15 ∧ PressedLast history code) ∧
    keypad.presses = (made.drop first).map Press.key ∧ keypad.presses.length ≤ 16 ∧
    (keypad.poll.1 = none → firstWaiting (history ++ [.poll]) = first) ∧
    (∀ code, keypad.poll.1 = some code →
      made[first]?.map (·.key.code) = some code ∧ firstWaiting (history ++ [.poll]) = first + 1) ∧
    (∀ event, firstWaiting (history ++ [.touch event]) =
      max first ((effectivePresses (history ++ [.touch event])).length - 16)) ∧
    (polled history).map some = (delivered history).map (fun index =>
      made[index]?.map (·.key.code)) ∧
    (delivered history).Pairwise (· < ·) ∧ (∀ index ∈ delivered history, index < first) ∧
    (∀ index, index < first → index ∉ delivered history →
      ∃ earlier event later, history = earlier ++ .touch event :: later ∧
        firstWaiting earlier = index ∧
        (effectivePresses (earlier ++ [.touch event])).length = index + 1 + 16) ∧
    (∀ event : KeyEvent, 15 < event.code.toNat → keypad.react event = keypad) ∧
    ∀ (i j : Nat) (one other : Press), i < j → made[i]? = some one → made[j]? = some other →
      one.key = other.key → ∃ time, one.time < time ∧ time < other.time ∧
        history[time]? = some (.touch (.release one.key.code)) := by
  intro keypad made first
  obtain ⟨hAscending, hBefore⟩ := delivered_ascending history
  refine ⟨isHeld_after history, presses_after history, (waiting_after history).1, ?_, ?_,
    firstWaiting_touch history, polled_eq history, hAscending, hBefore, ?_, ?_, ?_⟩
  · intro hNone
    rw [firstWaiting_poll, show (initial.after history).poll.1 = none from hNone]
    rfl
  · intro code hCode
    rw [firstWaiting_poll, ← poll_after history, show (initial.after history).poll.1 = _ from hCode]
    exact ⟨rfl, rfl⟩
  · intro index hIndex hLost
    exact (mem_delivered_or_dropped history hIndex).resolve_left hLost
  · intro event hUnknown
    exact keypad.react_of_unknown hUnknown
  · intro i j one other hOrder hOne hOther hKey
    exact exists_release_between hOrder hOne hOther hKey

end Keypad

end Chip8
