import FosV2.RingBuffer
import FosV2.Runs
import FosV2.StringLibrary

/-!
The console input buffer of `kern/console.c`: `cons_intr` stores what a device delivers and
`cons_getc` returns it. The buffer has no mark for "full": what is stored in a buffer that
already holds 511 characters is written over characters that wait.
-/

namespace FosV2

def consBufSize : Nat := 512

abbrev Cons := RingBuffer Byte

/-- The argument is what `proc` returns up to the `-1`. -/
def consIntr (cons : Cons) : List Byte → Cons
  | [] => cons
  | c :: rest =>
      if c = 0 then consIntr cons rest
      else consIntr (cons.put consBufSize c) rest

/-- `serial_intr` and `kbd_intr` drain the two devices first. -/
def consGetc (cons : Cons) (serial keyboard : List Byte) : Byte × Cons :=
  let cons := consIntr cons serial
  let cons := consIntr cons keyboard
  match cons.get consBufSize with
  | some (c, cons) => (c, cons)
  | none => (0, cons)

inductive ConsoleCall where
  | intr (bytes : List Byte)
  | getc (serial keyboard : List Byte)

def ConsoleCall.arriving : ConsoleCall → List Byte
  | .intr bytes => bytes
  | .getc serial keyboard => serial ++ keyboard

structure ConsoleRun where
  cons : Cons
  stored : List Byte
  returned : List Byte
  emptyReads : List (List Byte × List Byte)

def nonzero (bytes : List Byte) : List Byte :=
  bytes.filter fun c => c ≠ 0

def consoleStep (ρ : ConsoleRun) (call : ConsoleCall) : ConsoleRun :=
  let stored := ρ.stored ++ nonzero call.arriving
  match call with
  | .intr bytes => { ρ with cons := consIntr ρ.cons bytes, stored := stored }
  | .getc serial keyboard =>
      let (c, cons) := consGetc ρ.cons serial keyboard
      if c = 0 then
        { ρ with
          cons := cons
          stored := stored
          emptyReads := (ρ.returned, stored) :: ρ.emptyReads }
      else { ρ with cons := cons, stored := stored, returned := ρ.returned ++ [c] }

def ConsoleRun.start (cons : Cons) : ConsoleRun := ⟨cons, [], [], []⟩

structure ConsoleFifo (ρ : ConsoleRun) : Prop where
  ordered : ρ.returned <+: ρ.stored
  emptyReads : ∀ read ∈ ρ.emptyReads, read.1 = read.2

def ConsoleRoom (ρ : ConsoleRun) (call : ConsoleCall) : Prop :=
  ρ.stored.length - ρ.returned.length + (nonzero call.arriving).length < consBufSize

def RoomyStep (ρ : ConsoleRun) (call : ConsoleCall) (ρ' : ConsoleRun) : Prop :=
  ConsoleRoom ρ call ∧ ρ' = consoleStep ρ call

def idleReads : Nat → ConsoleRun → ConsoleRun
  | 0, ρ => ρ
  | n + 1, ρ => idleReads n (consoleStep ρ (.getc [] []))

theorem nonzero_cons_zero (rest : List Byte) : nonzero (0 :: rest) = nonzero rest := rfl

theorem nonzero_cons {c : Byte} (some : c ≠ 0) (rest : List Byte) :
    nonzero (c :: rest) = c :: nonzero rest :=
  List.filter_cons_of_pos (by simpa using some)

theorem ne_zero_of_mem_nonzero {c : Byte} {bytes : List Byte} (member : c ∈ nonzero bytes) :
    c ≠ 0 := by
  simpa using (List.mem_filter.mp member).2

theorem nonzero_replicate (count : Nat) {c : Byte} (some : c ≠ 0) :
    nonzero (List.replicate count c) = List.replicate count c :=
  List.filter_replicate_of_pos (by simpa using some)

theorem consIntr_append (cons : Cons) (first second : List Byte) :
    consIntr cons (first ++ second) = consIntr (consIntr cons first) second := by
  induction first generalizing cons with
  | nil => rfl
  | cons c rest ih =>
      rw [List.cons_append, consIntr, consIntr]
      split
      · exact ih cons
      · exact ih _

theorem consGetc_append (cons : Cons) (serial keyboard : List Byte) :
    consGetc cons serial keyboard = consGetc (consIntr cons (serial ++ keyboard)) [] [] := by
  rw [consIntr_append]
  rfl

/-- A poll that finds bytes is an interrupt before a poll that finds none. -/
theorem consoleStep_getc (ρ : ConsoleRun) (serial keyboard : List Byte) :
    consoleStep ρ (.getc serial keyboard) =
      consoleStep (consoleStep ρ (.intr (serial ++ keyboard))) (.getc [] []) := by
  have noneMore : nonzero (ConsoleCall.arriving (.getc [] [])) = [] := rfl
  simp only [consoleStep, consGetc_append ρ.cons serial keyboard, noneMore, List.append_nil]
  rfl

/-! While there is room -/

section Room

variable {cons : Cons} {queue bytes : List Byte} {ρ : ConsoleRun} {call : ConsoleCall}

theorem consIntr_holds (holds : cons.Holds consBufSize queue)
    (room : queue.length + (nonzero bytes).length < consBufSize) :
    (consIntr cons bytes).Holds consBufSize (queue ++ nonzero bytes) := by
  induction bytes generalizing cons queue with
  | nil => simpa [nonzero, consIntr] using holds
  | cons c rest ih =>
      rw [consIntr]
      split
      · rename_i zero
        rw [zero, nonzero_cons_zero] at room ⊢
        exact ih holds room
      · rename_i some
        rw [nonzero_cons some] at room ⊢
        rw [List.length_cons] at room
        have next := ih (holds.put c (by omega)) (by simp; omega)
        rwa [List.append_assoc, List.singleton_append] at next

structure ConsoleInvariant (queue : List Byte) (ρ : ConsoleRun) : Prop where
  holds : ρ.cons.Holds consBufSize queue
  waiting : ρ.stored = ρ.returned ++ queue
  someByte : ∀ c ∈ queue, c ≠ 0
  emptyReads : ∀ read ∈ ρ.emptyReads, read.1 = read.2

namespace ConsoleInvariant

theorem start (inside : cons.wpos < consBufSize) (empty : cons.rpos = cons.wpos) :
    ConsoleInvariant [] (.start cons) :=
  ⟨RingBuffer.holds_nil inside empty, rfl, by simp, by simp [ConsoleRun.start]⟩

theorem fifo (invariant : ConsoleInvariant queue ρ) : ConsoleFifo ρ :=
  ⟨invariant.waiting ▸ List.prefix_append _ _, invariant.emptyReads⟩

theorem room_iff (invariant : ConsoleInvariant queue ρ) (call : ConsoleCall) :
    ConsoleRoom ρ call ↔
      queue.length + (nonzero call.arriving).length < consBufSize := by
  rw [ConsoleRoom, invariant.waiting, List.length_append, Nat.add_sub_cancel_left]

theorem intr (invariant : ConsoleInvariant queue ρ)
    (room : queue.length + (nonzero bytes).length < consBufSize) :
    ConsoleInvariant (queue ++ nonzero bytes) (consoleStep ρ (.intr bytes)) := by
  refine ⟨consIntr_holds invariant.holds room, ?_, ?_, invariant.emptyReads⟩
  · change ρ.stored ++ nonzero bytes = _
    rw [invariant.waiting, List.append_assoc]
    rfl
  · intro c member
    rcases List.mem_append.mp member with waiting | arrived
    · exact invariant.someByte c waiting
    · exact ne_zero_of_mem_nonzero arrived

theorem read (invariant : ConsoleInvariant queue ρ) :
    ConsoleInvariant queue.tail (consoleStep ρ (.getc [] [])) := by
  have noneMore : nonzero (ConsoleCall.arriving (.getc [] [])) = [] := rfl
  cases queue with
  | nil =>
      have got := invariant.holds.get_nil
      have all := invariant.waiting
      rw [List.append_nil] at all
      simp only [consoleStep, consGetc, consIntr, got, if_true, noneMore, List.append_nil]
      refine ⟨invariant.holds, invariant.waiting, by simp, fun read member => ?_⟩
      rcases List.mem_cons.mp member with latest | earlier
      · rw [latest]
        exact all.symm
      · exact invariant.emptyReads read earlier
  | cons c rest =>
      obtain ⟨cons', got, holds⟩ := invariant.holds.get_cons
      have some := invariant.someByte c (by simp)
      simp only [consoleStep, consGetc, consIntr, got, some, if_false, noneMore,
        List.append_nil]
      refine ⟨holds, ?_, ?_, invariant.emptyReads⟩
      · rw [List.append_assoc, List.singleton_append]
        exact invariant.waiting
      · exact fun c' member => invariant.someByte c' (List.mem_cons_of_mem _ member)

theorem step (invariant : ConsoleInvariant queue ρ) (room : ConsoleRoom ρ call) :
    ∃ queue', ConsoleInvariant queue' (consoleStep ρ call) := by
  rw [invariant.room_iff] at room
  cases call with
  | intr bytes => exact ⟨_, invariant.intr room⟩
  | getc serial keyboard =>
      rw [consoleStep_getc]
      exact ⟨_, (invariant.intr room).read⟩

theorem reachable (inside : cons.wpos < consBufSize) (empty : cons.rpos = cons.wpos)
    (reached : Runs.Reachable RoomyStep (.start cons) ρ) :
    ∃ queue, ConsoleInvariant queue ρ := by
  have preserved : ∀ state label next, (∃ queue, ConsoleInvariant queue state) →
      RoomyStep state label next → ∃ queue, ConsoleInvariant queue next := by
    rintro state label next ⟨queue, invariant⟩ ⟨room, rfl⟩
    exact invariant.step room
  exact Runs.Reachable.preserves preserved reached ⟨[], start inside empty⟩

theorem idleReads (invariant : ConsoleInvariant queue ρ) (n : Nat) :
    ∃ queue', ConsoleInvariant queue' (idleReads n ρ) := by
  induction n generalizing ρ queue with
  | zero => exact ⟨queue, invariant⟩
  | succ n ih => exact ih invariant.read

end ConsoleInvariant

end Room

/-! When the buffer is written over -/

section Lap

variable {cons : Cons} {count : Nat} {bytes : List Byte} {ρ : ConsoleRun}

structure ConsoleLap (count : Nat) (ρ : ConsoleRun) : Prop where
  counts : ρ.cons.Counts consBufSize count
  filled : ρ.cons.Filled consBufSize (· ≠ 0) count
  waiting : ρ.stored.length = ρ.returned.length + count

theorem consIntr_counts (counts : cons.Counts consBufSize count)
    (filled : cons.Filled consBufSize (· ≠ 0) count) (bytes : List Byte) :
    (consIntr cons bytes).Counts consBufSize (count + (nonzero bytes).length) ∧
      (consIntr cons bytes).Filled consBufSize (· ≠ 0) (count + (nonzero bytes).length) := by
  induction bytes generalizing cons count with
  | nil => exact ⟨counts, filled⟩
  | cons c rest ih =>
      rw [consIntr]
      split
      · rename_i zero
        rw [zero, nonzero_cons_zero]
        exact ih counts filled
      · rename_i some
        rw [nonzero_cons some, List.length_cons, Nat.add_comm _ 1, ← Nat.add_assoc]
        exact ih (counts.put c) (filled.put counts some)

theorem ConsoleInvariant.lap {queue : List Byte} (invariant : ConsoleInvariant queue ρ)
    (bytes : List Byte) :
    ConsoleLap (queue.length + (nonzero bytes).length) (consoleStep ρ (.intr bytes)) := by
  have filled : ρ.cons.Filled consBufSize (· ≠ 0) queue.length := by
    intro i below
    have cell := invariant.holds.cells i below
    exact invariant.someByte _ (List.mem_of_getElem? cell)
  obtain ⟨counts', filled'⟩ := consIntr_counts invariant.holds.counts filled bytes
  refine ⟨counts', filled', ?_⟩
  change (ρ.stored ++ nonzero bytes).length = _
  rw [invariant.waiting, List.length_append, List.length_append, Nat.add_assoc]
  rfl

theorem ConsoleLap.breaks_at_once (lap : ConsoleLap count ρ) (lapped : 0 < count)
    (met : count % consBufSize = 0) : ¬ConsoleFifo (consoleStep ρ (.getc [] [])) := by
  have noneMore : nonzero (ConsoleCall.arriving (.getc [] [])) = [] := rfl
  have got := lap.counts.get_eq_none_iff.mpr met
  intro fifo
  have empty : (ρ.returned, ρ.stored) ∈ (consoleStep ρ (.getc [] [])).emptyReads := by
    simp [consoleStep, consGetc, consIntr, got, noneMore]
  have same : ρ.returned = ρ.stored := fifo.emptyReads _ empty
  have lengths := lap.waiting
  rw [same] at lengths
  omega

/-- After a lap the reads come to a 0 while bytes are missing. -/
theorem ConsoleLap.breaks (lap : ConsoleLap count ρ) (lapped : consBufSize ≤ count) :
    ∃ n, ¬ConsoleFifo (idleReads (n + 1) ρ) := by
  have noneMore : nonzero (ConsoleCall.arriving (.getc [] [])) = [] := rfl
  generalize left : count % consBufSize = remaining
  induction remaining generalizing ρ count with
  | zero =>
      have many : 512 ≤ count := lapped
      exact ⟨0, lap.breaks_at_once (by omega) left⟩
  | succ remaining ih =>
      cases count with
      | zero => exact absurd lapped (by decide)
      | succ count =>
          cases got : ρ.cons.get consBufSize with
          | none =>
              rw [lap.counts.get_eq_none_iff.mp got] at left
              exact absurd left (by simp)
          | some pair =>
              obtain ⟨c, cons'⟩ := pair
              obtain ⟨_, _, _, counts⟩ := lap.counts.get got
              obtain ⟨some, filled⟩ := lap.filled.get lap.counts got
              have next : ConsoleLap count (consoleStep ρ (.getc [] [])) := by
                simp only [consoleStep, consGetc, consIntr, got, some, if_false, noneMore,
                  List.append_nil]
                refine ⟨counts, filled, ?_⟩
                rw [List.length_append, lap.waiting, List.length_singleton]
                omega
              have apart : (count + 1) % 512 = remaining + 1 := left
              have many : 512 ≤ count + 1 := lapped
              have lapped' : 512 ≤ count := by omega
              have left' : count % 512 = remaining := by omega
              obtain ⟨n, broken⟩ := ih next lapped' left'
              exact ⟨n + 1, broken⟩

end Lap

/-- Runs whose calls leave room are first in, first out, and a call that does not breaks
what is read afterwards. -/
theorem consoleFifo_iff_room {cons : Cons} {ρ : ConsoleRun} (inside : cons.wpos < consBufSize)
    (empty : cons.rpos = cons.wpos) (reached : Runs.Reachable RoomyStep (.start cons) ρ) :
    ConsoleFifo ρ ∧ ∀ call,
      (∀ n, ConsoleFifo (idleReads n (consoleStep ρ call))) ↔ ConsoleRoom ρ call := by
  obtain ⟨queue, invariant⟩ := ConsoleInvariant.reachable inside empty reached
  refine ⟨invariant.fifo, fun call => ⟨fun fifo => ?_, fun room n => ?_⟩⟩
  · by_contra full
    rw [invariant.room_iff, Nat.not_lt] at full
    have lap := invariant.lap call.arriving
    obtain ⟨n, broken⟩ := lap.breaks full
    cases call with
    | intr bytes => exact broken (fifo (n + 1))
    | getc serial keyboard =>
        have later := fifo n
        rw [consoleStep_getc] at later
        exact broken later
  · obtain ⟨_, next⟩ := invariant.step room
    obtain ⟨_, later⟩ := next.idleReads n
    exact later.fifo

def emptyCons : Cons := ⟨fun _ => 0, 0, 0⟩

theorem consoleFifo_iff_room_emptyCons :
    ConsoleFifo (consoleStep (.start emptyCons) (.intr [0x41, 0x42])) ∧
      ¬∀ n, ConsoleFifo (idleReads n (consoleStep
        (consoleStep (.start emptyCons) (.intr [0x41, 0x42])) (.intr (List.replicate 510 0x43)))) := by
  have room : ConsoleRoom (.start emptyCons) (.intr [0x41, 0x42]) :=
    show 0 - 0 + 2 < 512 by decide
  have reached : Runs.Reachable RoomyStep (.start emptyCons)
      (consoleStep (.start emptyCons) (.intr [0x41, 0x42])) :=
    ⟨_, .cons ⟨room, rfl⟩ (.nil _)⟩
  have exactly := consoleFifo_iff_room (by decide) rfl reached
  refine ⟨exactly.1, fun fifo => ?_⟩
  have full := (exactly.2 _).mp fifo
  rw [ConsoleRoom, ConsoleCall.arriving, nonzero_replicate _ (by decide),
    List.length_replicate] at full
  exact absurd full (show ¬2 - 0 + 510 < 512 by decide)

/-- The first byte of 512 that wait is not returned. -/
theorem not_consoleFifo_fullBuffer : ¬ConsoleFifo (consoleStep (consoleStep (.start emptyCons)
    (.intr (List.replicate 512 0x41))) (.getc [] [])) := by
  have started : ConsoleInvariant [] (.start emptyCons) := .start (by decide) rfl
  have lap := started.lap (List.replicate 512 0x41)
  rw [nonzero_replicate _ (by decide), List.length_replicate] at lap
  exact lap.breaks_at_once (by decide) (by decide)

end FosV2
