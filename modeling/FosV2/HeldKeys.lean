import Mathlib.Data.List.Infix
import Mathlib.Logic.Function.Basic

/-!
Keys that are pressed and released, and a latch for a group of them: any key of the group sets
it when pressed and clears it when released. The latch tells whether a key of the group is
held, just as long as none is released while another one is held.
-/

namespace HeldKeys

variable {Key : Type}

inductive Event (Key : Type) where
  | press (key : Key)
  | release (key : Key)
  | other

variable [DecidableEq Key]

def hold (held : Key → Bool) : Event Key → Key → Bool
  | .press key => Function.update held key true
  | .release key => Function.update held key false
  | .other => held

def heldAfter (events : List (Event Key)) : Key → Bool := events.foldl hold fun _ => false

def Alternating (held : Key → Bool) : List (Event Key) → Prop
  | [] => True
  | .press key :: rest => held key = false ∧ Alternating (hold held (.press key)) rest
  | .release key :: rest => held key = true ∧ Alternating (hold held (.release key)) rest
  | .other :: rest => Alternating held rest

def AnyHeld (group : Key → Bool) (events : List (Event Key)) : Prop :=
  ∃ key, group key = true ∧ heldAfter events key = true

def latch (group : Key → Bool) (set : Bool) : Event Key → Bool
  | .press key => set || group key
  | .release key => set && !group key
  | .other => set

def latchAfter (group : Key → Bool) (events : List (Event Key)) : Bool :=
  events.foldl (latch group) false

def Uncrossed (group : Key → Bool) (events : List (Event Key)) : Prop :=
  ∀ before key, before ++ [.release key] <+: events → group key = true →
    ∀ other, group other = true → heldAfter before other = true → other = key

variable {group : Key → Bool} {events : List (Event Key)} {event : Event Key} {key : Key}

theorem heldAfter_append (events : List (Event Key)) (event : Event Key) :
    heldAfter (events ++ [event]) = hold (heldAfter events) event := by
  rw [heldAfter, List.foldl_append]
  rfl

omit [DecidableEq Key] in
theorem latchAfter_append (group : Key → Bool) (events : List (Event Key)) (event : Event Key) :
    latchAfter group (events ++ [event]) = latch group (latchAfter group events) event := by
  rw [latchAfter, List.foldl_append]
  rfl

theorem hold_of_ne {held : Key → Bool} {other : Key} (different : other ≠ key) :
    hold held (.press key) other = held other ∧ hold held (.release key) other = held other :=
  ⟨Function.update_of_ne different .., Function.update_of_ne different ..⟩

theorem anyHeld_of_latch (set : latchAfter group events = true) : AnyHeld group events := by
  induction events using List.reverseRecOn with
  | nil => cases set
  | append_singleton events event ih =>
      rw [latchAfter_append] at set
      cases event with
      | press key =>
          by_cases member : group key = true
          · refine ⟨key, member, ?_⟩
            rw [heldAfter_append]
            exact Function.update_self ..
          · have before : latchAfter group events = true := by simpa [latch, member] using set
            obtain ⟨other, inGroup, held⟩ := ih before
            have different : other ≠ key := fun same => member (same ▸ inGroup)
            refine ⟨other, inGroup, ?_⟩
            rw [heldAfter_append, (hold_of_ne different).1, held]
      | release key =>
          have both : latchAfter group events = true ∧ group key = false := by
            simpa [latch] using set
          obtain ⟨other, inGroup, held⟩ := ih both.1
          have different : other ≠ key := by
            rintro rfl
            rw [both.2] at inGroup
            cases inGroup
          refine ⟨other, inGroup, ?_⟩
          rw [heldAfter_append, (hold_of_ne different).2, held]
      | other =>
          obtain ⟨key, inGroup, held⟩ := ih set
          refine ⟨key, inGroup, ?_⟩
          rw [heldAfter_append]
          exact held

theorem Uncrossed.of_append (uncrossed : Uncrossed group (events ++ [event])) :
    Uncrossed group events :=
  fun before key within => uncrossed before key (within.trans (List.prefix_append ..))

theorem latch_of_anyHeld (uncrossed : Uncrossed group events) (any : AnyHeld group events) :
    latchAfter group events = true := by
  induction events using List.reverseRecOn with
  | nil =>
      obtain ⟨key, _, held⟩ := any
      cases held
  | append_singleton events event ih =>
      have before := ih uncrossed.of_append
      obtain ⟨other, inGroup, held⟩ := any
      rw [heldAfter_append] at held
      rw [latchAfter_append]
      cases event with
      | press key =>
          by_cases same : other = key
          · rw [latch, ← same, inGroup, Bool.or_true]
          · rw [(hold_of_ne same).1] at held
            rw [latch, before ⟨other, inGroup, held⟩, Bool.true_or]
      | release key =>
          have different : other ≠ key := by
            rintro rfl
            rw [hold, Function.update_self] at held
            cases held
          rw [(hold_of_ne different).2] at held
          cases member : group key with
          | true =>
              have crossed := uncrossed events key (List.prefix_refl _) member other inGroup held
              exact absurd crossed different
          | false =>
              rw [latch, before ⟨other, inGroup, held⟩, member]
              rfl
      | other => exact before ⟨other, inGroup, held⟩

/-- The latch is right after every event just where no release is crossed. -/
theorem latch_right_iff : (∀ before, before <+: events →
      (latchAfter group before = true ↔ AnyHeld group before)) ↔ Uncrossed group events := by
  constructor
  · intro right before key within member other inGroup held
    by_contra different
    have any : AnyHeld group (before ++ [.release key]) := by
      refine ⟨other, inGroup, ?_⟩
      rw [heldAfter_append, (hold_of_ne different).2, held]
    have set := (right _ within).mpr any
    rw [latchAfter_append, latch, member, Bool.not_true, Bool.and_false] at set
    cases set
  · intro uncrossed before within
    have earlier : Uncrossed group before :=
      fun first key inside => uncrossed first key (inside.trans within)
    exact ⟨anyHeld_of_latch, latch_of_anyHeld earlier⟩

end HeldKeys
