import FosV2.HeldKeys
import FosV2.Keyboard

/-!
The modifiers in the shift state against the keys that are held. Each modifier has two keys
and one bit, so that releasing the one clears the bit for both.
-/

namespace FosV2

open HeldKeys

/-- A key, or what keyboards send around the keys of the middle block while a shift key is
held: `E0 2A` and `E0 AA`. -/
inductive KeyboardEvent where
  | press (key : ScanKey)
  | release (key : ScanKey)
  | fakeShift (released : Bool)

def KeyboardEvent.scanCodes : KeyboardEvent → List Byte
  | press key => key.escape ++ [key.pressed]
  | release key => key.escape ++ [key.released]
  | fakeShift released => [0xE0, if released then 0xAA else 0x2A]

def KeyboardEvent.ofKeys : KeyboardEvent → Event ScanKey
  | press key => .press key
  | release key => .release key
  | fakeShift _ => .other

def shiftAfter (events : List KeyboardEvent) : Word :=
  shiftBehind 0 (events.flatMap KeyboardEvent.scanCodes)

inductive Modifier where
  | shift | ctl | alt

def Modifier.flag : Modifier → Word
  | shift => shiftFlag
  | ctl => ctlFlag
  | alt => altFlag

/-- Left and right, where the right keys of `CTL` and `ALT` are extended ones. -/
def Modifier.hasKey : Modifier → ScanKey → Bool
  | shift, key => !key.extended && (key.code == 0x2A || key.code == 0x36)
  | ctl, key => key.code == 0x1D
  | alt, key => key.code == 0x38

def keyEvents (events : List KeyboardEvent) : List (Event ScanKey) :=
  events.map KeyboardEvent.ofKeys

def TellsHeld (m : Modifier) (events : List KeyboardEvent) : Prop :=
  ∀ before, before <+: events →
    (shiftAfter before &&& m.flag ≠ 0 ↔ AnyHeld m.hasKey (keyEvents before))

section Bits

variable (events : List KeyboardEvent) (event : KeyboardEvent) (m : Modifier)

def Modifier.bit : Modifier → Nat
  | shift => 0
  | ctl => 1
  | alt => 2

theorem Modifier.bit_lt : m.bit < 3 := by
  cases m <;> decide

theorem Modifier.flag_ne_zero_iff (shift : Word) :
    shift &&& m.flag ≠ 0 ↔ shift.getLsbD m.bit = true := by
  have flag : m.flag = BitVec.twoPow 32 m.bit := by cases m <;> rfl
  have small := m.bit_lt
  rw [flag]
  exact FosV2.flag_ne_zero_iff (by omega)

/-- The table names the keys of each modifier. -/
theorem shiftcode_index (key : ScanKey) :
    (shiftcode key.index).getLsbD m.bit = m.hasKey key := by
  obtain ⟨extended, code, notEscape⟩ := key
  revert extended code
  cases m <;> decide

def fakeShiftKey : ScanKey := ⟨true, 0x2A, by decide⟩

theorem fakeShiftKey_bit (i : Nat) : (shiftcode fakeShiftKey.index).getLsbD i = false := by
  have none : shiftcode fakeShiftKey.index = 0 := rfl
  rw [none]
  exact BitVec.getLsbD_zero

theorem shiftAfter_append : shiftAfter (events ++ [event]) =
    shiftBehind (shiftAfter events) event.scanCodes := by
  rw [shiftAfter, List.flatMap_append, List.flatMap_singleton, shiftBehind, List.foldl_append]
  rfl

theorem event_escape {shift : Word} (clear : shift.getLsbD 6 = false) :
    (shiftBehind shift event.scanCodes).getLsbD 6 = false := by
  have pressed : ∀ key : ScanKey,
      (shiftBehind shift (key.escape ++ [key.pressed])).getLsbD 6 = false := by
    intro key
    rw [key.press_bit clear (.inr rfl), clear, shiftcode_escape]
    rfl
  cases event with
  | press key => exact pressed key
  | release key => exact key.release_escape clear
  | fakeShift released =>
      cases released with
      | false => exact pressed fakeShiftKey
      | true => exact fakeShiftKey.release_escape clear

theorem event_bit {shift : Word} (clear : shift.getLsbD 6 = false) :
    (shiftBehind shift event.scanCodes).getLsbD m.bit =
      latch m.hasKey (shift.getLsbD m.bit) event.ofKeys := by
  have below := m.bit_lt
  cases event with
  | press key => exact (key.press_bit clear (.inl below)).trans (by rw [shiftcode_index]; rfl)
  | release key => exact (key.release_bit clear below).trans (by rw [shiftcode_index]; rfl)
  | fakeShift released =>
      cases released with
      | false =>
          refine (fakeShiftKey.press_bit clear (.inl below)).trans ?_
          rw [fakeShiftKey_bit, Bool.or_false]
          rfl
      | true =>
          refine (fakeShiftKey.release_bit clear below).trans ?_
          rw [fakeShiftKey_bit, Bool.not_false, Bool.and_true]
          rfl

theorem shiftAfter_escape : (shiftAfter events).getLsbD 6 = false := by
  induction events using List.reverseRecOn with
  | nil => rfl
  | append_singleton events event ih =>
      rw [shiftAfter_append]
      exact event_escape event ih

/-- The bit of a modifier is a latch for its keys. -/
theorem shiftAfter_bit :
    (shiftAfter events).getLsbD m.bit = latchAfter m.hasKey (keyEvents events) := by
  induction events using List.reverseRecOn with
  | nil => cases m <;> rfl
  | append_singleton events event ih =>
      rw [shiftAfter_append, event_bit event m (shiftAfter_escape events), ih, keyEvents,
        keyEvents, List.map_append, List.map_singleton, latchAfter_append]

theorem tellsHeld_iff_uncrossed : TellsHeld m events ↔ Uncrossed m.hasKey (keyEvents events) := by
  have latched : ∀ before, (shiftAfter before &&& m.flag ≠ 0 ↔
      latchAfter m.hasKey (keyEvents before) = true) := by
    intro before
    rw [m.flag_ne_zero_iff, shiftAfter_bit]
  rw [← latch_right_iff, TellsHeld]
  constructor
  · intro tells before within
    obtain ⟨earlier, inside, rfl⟩ := List.prefix_map_iff.mp within
    exact (latched earlier).symm.trans (tells earlier inside)
  · intro right before within
    exact (latched before).trans (right _ (within.map _))

end Bits

/-- The escape is over after each event, and a bit that is set has a key held. It tells in
each state whether there is one, just as long as no key of the modifier is released while the
other one is held. -/
theorem modifiers_tracked (events : List KeyboardEvent) : shiftAfter events &&& e0Esc = 0 ∧
    ∀ m : Modifier,
      (shiftAfter events &&& m.flag ≠ 0 → AnyHeld m.hasKey (keyEvents events)) ∧
        (TellsHeld m events ↔ Uncrossed m.hasKey (keyEvents events)) := by
  refine ⟨?_, fun m => ⟨fun set => ?_, tellsHeld_iff_uncrossed events m⟩⟩
  · by_contra escaped
    have set := (flag_ne_zero_iff (by decide)).mp escaped
    rw [shiftAfter_escape] at set
    cases set
  · rw [m.flag_ne_zero_iff, shiftAfter_bit] at set
    exact anyHeld_of_latch set

def leftShift : ScanKey := ⟨false, 0x2A, by decide⟩

def rightShift : ScanKey := ⟨false, 0x36, by decide⟩

/-- Both shift keys are pressed, and the left one is released. -/
theorem not_tellsHeld_bothShifts : ¬∀ events : List KeyboardEvent,
    Alternating (fun _ => false) (keyEvents events) → ∀ m, TellsHeld m events := by
  intro claimed
  have possible : Alternating (fun _ => false)
      (keyEvents [.press leftShift, .press rightShift, .release leftShift]) :=
    ⟨rfl, rfl, rfl, trivial⟩
  have told := claimed _ possible .shift _ (List.prefix_refl _)
  have held : AnyHeld (Modifier.hasKey .shift)
      (keyEvents [.press leftShift, .press rightShift, .release leftShift]) :=
    ⟨rightShift, by decide, by decide⟩
  exact told.mpr held (by decide)

end FosV2
