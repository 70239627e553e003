import FosV2.HeldModifiers
import FosV2.ConsoleInput
import FosV2.ReferenceLineEdit

/-!
From the keys to the line: `kbd_intr` decodes what the keyboard has sent, a byte at a time and
in whatever pieces it is polled, `cons_getc` passes it on, and `readline` edits it. The
keyboard of the reference knows keys and no bytes.
-/

namespace FosV2

open HeldKeys

/-! ## The keyboard of the reference -/

structure KeyState where
  shift : Bool
  ctl : Bool
  alt : Bool
  caps : Bool
  deriving DecidableEq

def ScanKey.isCapsLock (key : ScanKey) : Bool := !key.extended && key.code == 0x3A

def delKey : ScanKey := ⟨true, 0x53, by decide⟩

def swapCase (c : Byte) : Byte :=
  if char 'a' ≤ c ∧ c ≤ char 'z' then c - 0x20
  else if char 'A' ≤ c ∧ c ≤ char 'Z' then c + 0x20
  else c

namespace KeyState

variable (k : KeyState)

def press (key : ScanKey) : KeyState where
  shift := k.shift || Modifier.shift.hasKey key
  ctl := k.ctl || Modifier.ctl.hasKey key
  alt := k.alt || Modifier.alt.hasKey key
  caps := k.caps ^^ key.isCapsLock

def release (key : ScanKey) : KeyState where
  shift := k.shift && !Modifier.shift.hasKey key
  ctl := k.ctl && !Modifier.ctl.hasKey key
  alt := k.alt && !Modifier.alt.hasKey key
  caps := k.caps

def next : KeyboardEvent → KeyState
  | .press key => k.press key
  | .release key => k.release key
  | .fakeShift _ => k

def charOf (key : ScanKey) : Byte :=
  let c := (if k.ctl then ctlmap else if k.shift then shiftmap else normalmap) key.index
  if k.caps then swapCase c else c

def typed : KeyboardEvent → List Byte
  | .press key => nonzero [(k.press key).charOf key]
  | _ => []

def reboots : KeyboardEvent → Bool
  | .press key => (k.press key).ctl && (k.press key).alt && key == delKey
  | _ => false

def after : List KeyboardEvent → KeyState := List.foldl next k

def text : KeyState → List KeyboardEvent → List Byte
  | _, [] => []
  | k, event :: events => k.typed event ++ text (k.next event) events

def everReboots : KeyState → List KeyboardEvent → Bool
  | _, [] => false
  | k, event :: events => k.reboots event || everReboots (k.next event) events

end KeyState

/-! ## The driver -/

def kbdValues : Word → List Byte → List Byte
  | _, [] => []
  | shift, data :: codes =>
      let r := kbdProcData shift (some data)
      r.c.setWidth 8 :: kbdValues r.shift codes

def kbdReboots : Word → List Byte → Bool
  | _, [] => false
  | shift, data :: codes =>
      let r := kbdProcData shift (some data)
      r.rebooting || kbdReboots r.shift codes

structure Shows (shift : Word) (k : KeyState) : Prop where
  shiftBit : shift.getLsbD 0 = k.shift
  ctlBit : shift.getLsbD 1 = k.ctl
  altBit : shift.getLsbD 2 = k.alt
  capsBit : shift.getLsbD 3 = k.caps
  noEscape : shift.getLsbD 6 = false

section Append

variable {shift : Word}

theorem shiftBehind_append (first second : List Byte) :
    shiftBehind shift (first ++ second) = shiftBehind (shiftBehind shift first) second :=
  List.foldl_append

theorem kbdValues_append (first second : List Byte) : kbdValues shift (first ++ second) =
    kbdValues shift first ++ kbdValues (shiftBehind shift first) second := by
  induction first generalizing shift with
  | nil => rfl
  | cons data first ih =>
      simp only [List.cons_append, kbdValues, ih]
      rfl

theorem kbdReboots_append (first second : List Byte) : kbdReboots shift (first ++ second) =
    (kbdReboots shift first || kbdReboots (shiftBehind shift first) second) := by
  induction first generalizing shift with
  | nil => rfl
  | cons data first ih =>
      simp only [List.cons_append, kbdReboots, ih, Bool.or_assoc]
      rfl

end Append

/-! ## One event -/

section Events

variable {shift : Word} {data : Byte} {k : KeyState}

theorem kbdProcData_escape : kbdProcData shift (some 0xE0) = ⟨0, shift ||| e0Esc, false⟩ := by
  rw [kbdProcData, if_pos rfl]

theorem kbdProcData_release_silent (other : data ≠ 0xE0) (top : data &&& 0x80 ≠ 0) :
    (kbdProcData shift (some data)).c = 0 ∧ (kbdProcData shift (some data)).rebooting = false := by
  rw [kbdProcData, if_neg other, if_pos top]
  exact ⟨rfl, rfl⟩

theorem kbdProcData_press_char (other : data ≠ 0xE0) (top : data &&& 0x80 = 0) :
    let r := kbdProcData shift (some data)
    let c := (charcode r.shift (if shift.getLsbD 6 then data ||| 0x80 else data)).setWidth 32
    r.c = (if r.shift &&& capsLockFlag ≠ 0 then exchangeCase c else c) ∧
      r.rebooting = (decide (~~~r.shift &&& (ctlFlag ||| altFlag) = 0) &&
        decide (r.c = keyDel.setWidth 32)) := by
  have escaped : (shift &&& e0Esc ≠ 0) = (shift.getLsbD 6 = true) :=
    propext (flag_ne_zero_iff (by decide))
  rw [kbdProcData, if_neg other, if_neg (not_not.mpr top)]
  simp only [escaped]
  by_cases pending : shift.getLsbD 6 = true
  · rw [if_pos pending, if_pos pending]
    exact ⟨rfl, trivial⟩
  · rw [if_neg pending, if_neg pending]
    exact ⟨rfl, trivial⟩

theorem exchangeCase_byte (c : Byte) : exchangeCase (c.setWidth 32) = (swapCase c).setWidth 32 := by
  revert c
  decide

theorem flag_of_bit {i : Nat} {b : Bool} (bit : shift.getLsbD i = b) (small : i < 32) :
    (shift &&& BitVec.twoPow 32 i ≠ 0) = (b = true) := by
  rw [← bit]
  exact propext (flag_ne_zero_iff small)

theorem Shows.charcode_eq (shows : Shows shift k) : charcode shift =
    if k.ctl then ctlmap else if k.shift then shiftmap else normalmap := by
  have ctl : (shift &&& ctlFlag ≠ 0) = (k.ctl = true) := flag_of_bit shows.ctlBit (by omega)
  have isShift : (shift &&& shiftFlag ≠ 0) = (k.shift = true) :=
    flag_of_bit shows.shiftBit (by omega)
  simp only [charcode, ctl, isShift]

theorem Shows.char_eq (shows : Shows shift k) (key : ScanKey) :
    (if shift &&& capsLockFlag ≠ 0 then exchangeCase ((charcode shift key.index).setWidth 32)
      else (charcode shift key.index).setWidth 32) = (k.charOf key).setWidth 32 := by
  have caps : (shift &&& capsLockFlag ≠ 0) = (k.caps = true) :=
    flag_of_bit shows.capsBit (by omega)
  simp only [caps, exchangeCase_byte, KeyState.charOf, shows.charcode_eq]
  cases k.caps <;> rfl

theorem Shows.ctlAlt_iff (shows : Shows shift k) :
    ~~~shift &&& (ctlFlag ||| altFlag) = 0 ↔ k.ctl = true ∧ k.alt = true := by
  have bit (i : Nat) : (~~~shift &&& (ctlFlag ||| altFlag)).getLsbD i =
      (decide (i < 32) && !shift.getLsbD i && (decide (1 = i) || decide (2 = i))) := by
    simp only [ctlFlag, altFlag, BitVec.getLsbD_and, BitVec.getLsbD_not, BitVec.getLsbD_or,
      BitVec.getLsbD_twoPow, Nat.reduceLT, decide_true, Bool.true_and]
  constructor
  · intro none
    rw [none] at bit
    have one := bit 1
    have two := bit 2
    rw [shows.ctlBit] at one
    rw [shows.altBit] at two
    exact ⟨by simpa using one, by simpa using two⟩
  · rintro ⟨ctl, alt⟩
    apply BitVec.eq_of_getLsbD_eq
    intro i inside
    refine (bit i).trans (Eq.trans ?_ BitVec.getLsbD_zero.symm)
    by_cases one : i = 1
    · rw [one, shows.ctlBit, ctl]
      rfl
    · by_cases two : i = 2
      · rw [two, shows.altBit, alt]
        rfl
      · simp [Ne.symm one, Ne.symm two]

/-- With `ctl` held, no other key gives `KEY_DEL`. -/
theorem KeyState.charOf_eq_keyDel (ctl : k.ctl = true) (key : ScanKey) :
    k.charOf key = keyDel ↔ key = delKey := by
  obtain ⟨extended, code, notEscape⟩ := key
  have table : ∀ (extended caps : Bool) (code : BitVec 7), code ≠ 0x60 →
      ((if caps then swapCase (ctlmap (if extended then 0x80 ||| code.setWidth 8 else
        code.setWidth 8)) else ctlmap (if extended then 0x80 ||| code.setWidth 8 else
          code.setWidth 8)) = keyDel ↔ extended = true ∧ code = 0x53) := by
    decide
  simp only [KeyState.charOf, ctl, if_true, ScanKey.index, table extended k.caps code notEscape,
    delKey, ScanKey.mk.injEq]

theorem lockCodes (key : ScanKey) : (shiftcode key.index).getLsbD 3 = false ∧
    (togglecode key.index).getLsbD 3 = key.isCapsLock := by
  obtain ⟨extended, code, notEscape⟩ := key
  revert extended code
  decide

theorem capsBit_event (shows : Shows shift k) (event : KeyboardEvent) :
    (shiftBehind shift event.scanCodes).getLsbD 3 = (k.next event).caps := by
  have pressed : ∀ key : ScanKey, (shiftBehind shift (key.escape ++ [key.pressed])).getLsbD 3 =
      (k.caps ^^ key.isCapsLock) := by
    intro key
    obtain ⟨none, toggles⟩ := lockCodes key
    rw [key.shiftBehind_press shows.noEscape, BitVec.getLsbD_xor, BitVec.getLsbD_or, none, toggles,
      shows.capsBit, Bool.or_false]
  have released : ∀ key : ScanKey,
      (shiftBehind shift (key.escape ++ [key.released])).getLsbD 3 = k.caps := by
    intro key
    rw [key.shiftBehind_release shows.noEscape, BitVec.getLsbD_and, BitVec.getLsbD_not,
      BitVec.getLsbD_or, (lockCodes key).1, e0Esc_bit, shows.capsBit]
    exact Bool.and_true _
  cases event with
  | press key => exact pressed key
  | release key => exact released key
  | fakeShift up =>
      cases up with
      | false => exact (pressed fakeShiftKey).trans (Bool.xor_false _)
      | true => exact released fakeShiftKey

theorem Shows.next (shows : Shows shift k) (event : KeyboardEvent) :
    Shows (shiftBehind shift event.scanCodes) (k.next event) := by
  have bit (m : Modifier) := @event_bit event m shift shows.noEscape
  have shiftBit := bit .shift
  have ctlBit := bit .ctl
  have altBit := bit .alt
  simp only [Modifier.bit, shows.shiftBit, shows.ctlBit, shows.altBit] at shiftBit ctlBit altBit
  refine ⟨?_, ?_, ?_, capsBit_event shows event, event_escape event shows.noEscape⟩
  · rw [shiftBit]
    cases event <;> rfl
  · rw [ctlBit]
    cases event <;> rfl
  · rw [altBit]
    cases event <;> rfl

theorem nonzero_zero_append (bytes : List Byte) : nonzero ([0] ++ bytes) = nonzero bytes := rfl

theorem kbdValues_escape (codes : List Byte) :
    kbdValues shift ([0xE0] ++ codes) = [0] ++ kbdValues (shift ||| e0Esc) codes := by
  change (kbdProcData shift (some 0xE0)).c.setWidth 8 ::
    kbdValues (kbdProcData shift (some 0xE0)).shift codes = _
  rw [kbdProcData_escape]
  rfl

theorem kbdReboots_escape (codes : List Byte) :
    kbdReboots shift ([0xE0] ++ codes) = kbdReboots (shift ||| e0Esc) codes := by
  change ((kbdProcData shift (some 0xE0)).rebooting ||
    kbdReboots (kbdProcData shift (some 0xE0)).shift codes) = _
  rw [kbdProcData_escape]
  rfl

/-- The last byte of a key, behind its `E0` if it has one, tells what the key comes to. -/
theorem values_of_last (key : ScanKey) (last : Byte) {c : Byte} {reboots : Bool}
    (clear : shift.getLsbD 6 = false)
    (result : ∀ before : Word, before.getLsbD 6 = key.extended →
      (kbdProcData before (some last)).shift = shiftBehind shift (key.escape ++ [last]) →
        (kbdProcData before (some last)).c = c.setWidth 32 ∧
          (kbdProcData before (some last)).rebooting = reboots) :
    nonzero (kbdValues shift (key.escape ++ [last])) = nonzero [c] ∧
      kbdReboots shift (key.escape ++ [last]) = reboots := by
  have single (before : Word) (value : (kbdProcData before (some last)).c = c.setWidth 32) :
      kbdValues before [last] = [c] := by
    change [(kbdProcData before (some last)).c.setWidth 8] = [c]
    rw [value, byte_of_word]
  have once (before : Word) : kbdReboots before [last] =
      (kbdProcData before (some last)).rebooting := Bool.or_false _
  cases prefixed : key.extended with
  | false =>
      have none := (key.bytes_plain prefixed).1
      obtain ⟨value, rebooting⟩ := result shift (clear.trans prefixed.symm) (by rw [none]; rfl)
      rw [none, List.nil_append, single shift value, once]
      exact ⟨rfl, rebooting⟩
  | true =>
      have one := (key.bytes_extended prefixed).1
      have behind : shiftBehind shift (key.escape ++ [last]) =
          (kbdProcData (shift ||| e0Esc) (some last)).shift := by
        rw [one]
        change (kbdProcData (kbdProcData shift (some 0xE0)).shift (some last)).shift = _
        rw [kbdProcData_escape]
      obtain ⟨value, rebooting⟩ :=
        result (shift ||| e0Esc) ((escaped_bit shift).trans prefixed.symm) behind.symm
      rw [one, kbdValues_escape, kbdReboots_escape, nonzero_zero_append, single _ value, once]
      exact ⟨rfl, rebooting⟩

theorem Shows.release_values (shows : Shows shift k) (key : ScanKey) :
    nonzero (kbdValues shift (key.escape ++ [key.released])) = [] ∧
      kbdReboots shift (key.escape ++ [key.released]) = false := by
  obtain ⟨_, _, other, top, _, _⟩ := key.codes
  exact values_of_last key key.released (c := 0) shows.noEscape
    fun before _ _ => @kbdProcData_release_silent before _ other top

theorem Shows.press_values (shows : Shows shift k) (key : ScanKey) :
    nonzero (kbdValues shift (key.escape ++ [key.pressed])) = nonzero [(k.press key).charOf key] ∧
      kbdReboots shift (key.escape ++ [key.pressed]) =
        ((k.press key).ctl && (k.press key).alt && key == delKey) := by
  obtain ⟨other, top, _, _, masked, _⟩ := key.codes
  have after : Shows (shiftBehind shift (key.escape ++ [key.pressed])) (k.press key) :=
    shows.next (.press key)
  apply values_of_last key key.pressed shows.noEscape
  intro before pending behind
  rw [← behind] at after
  obtain ⟨c, rebooting⟩ := @kbdProcData_press_char before _ other top
  have index : (if before.getLsbD 6 then key.pressed ||| 0x80 else key.pressed) = key.index := by
    rw [pending, masked]
    cases prefixed : key.extended with
    | false => exact (key.bytes_plain prefixed).2.symm
    | true => exact (key.bytes_extended prefixed).2.symm
  simp only [index, after.char_eq] at c
  rw [c] at rebooting
  have wide : ((k.press key).charOf key).setWidth 32 = (keyDel.setWidth 32 : Word) ↔
      (k.press key).charOf key = keyDel := by
    constructor
    · intro same
      rw [← byte_of_word ((k.press key).charOf key), same, byte_of_word]
    · exact congrArg (BitVec.setWidth 32)
  refine ⟨c, rebooting.trans (Bool.eq_iff_iff.mpr ?_)⟩
  simp only [Bool.and_eq_true, decide_eq_true_eq, beq_iff_eq, wide, after.ctlAlt_iff]
  constructor
  · rintro ⟨held, del⟩
    exact ⟨held, (KeyState.charOf_eq_keyDel held.1 key).mp del⟩
  · rintro ⟨held, del⟩
    exact ⟨held, (KeyState.charOf_eq_keyDel held.1 key).mpr del⟩

theorem Shows.event_values (shows : Shows shift k) (event : KeyboardEvent) :
    nonzero (kbdValues shift event.scanCodes) = k.typed event ∧
      kbdReboots shift event.scanCodes = k.reboots event := by
  cases event with
  | press key => exact shows.press_values key
  | release key => exact shows.release_values key
  | fakeShift up =>
      cases up with
      | true => exact shows.release_values fakeShiftKey
      | false =>
          obtain ⟨values, reboots⟩ := shows.press_values fakeShiftKey
          have silent : ∀ shift ctl alt caps : Bool,
              nonzero [((⟨shift, ctl, alt, caps⟩ : KeyState).press fakeShiftKey).charOf
                fakeShiftKey] = [] := by decide
          refine ⟨values.trans (silent k.shift k.ctl k.alt k.caps), reboots.trans ?_⟩
          exact Bool.and_false _

end Events

/-! ## Polling -/

structure Input where
  shift : Word
  cons : Cons

/-- `cons_getc` while the serial line is silent; `kbd_intr` finds `codes`. -/
def pollGetc (input : Input) (codes : List Byte) : Byte × Input :=
  let (c, cons) := consGetc input.cons [] (kbdValues input.shift codes)
  (c, ⟨shiftBehind input.shift codes, cons⟩)

def getcs : Input → List (List Byte) → List Byte
  | _, [] => []
  | input, codes :: polls =>
      let (c, input) := pollGetc input codes
      c :: getcs input polls

def Roomy : Nat → Word → List (List Byte) → Prop
  | _, _, [] => True
  | waiting, shift, codes :: polls =>
      let arrived := (nonzero (kbdValues shift codes)).length
      waiting + arrived < consBufSize ∧
        Roomy (waiting + arrived - 1) (shiftBehind shift codes) polls

section Polls

variable {input : Input} {shift : Word} {k : KeyState} {queue : List Byte}
  {polls : List (List Byte)}

/-- The decoder and the keyboard of the reference agree over whole runs. -/
theorem Shows.run (shows : Shows shift k) (events : List KeyboardEvent) :
    nonzero (kbdValues shift (events.flatMap KeyboardEvent.scanCodes)) = k.text events ∧
      kbdReboots shift (events.flatMap KeyboardEvent.scanCodes) = k.everReboots events ∧
      Shows (shiftBehind shift (events.flatMap KeyboardEvent.scanCodes)) (k.after events) := by
  induction events generalizing shift k with
  | nil => exact ⟨rfl, rfl, shows⟩
  | cons event events ih =>
      obtain ⟨values, reboots⟩ := shows.event_values event
      obtain ⟨later, reboots', shows'⟩ := ih (shows.next event)
      rw [List.flatMap_cons, kbdValues_append, kbdReboots_append, shiftBehind_append]
      refine ⟨?_, ?_, shows'⟩
      · rw [nonzero, List.filter_append]
        exact congrArg₂ (· ++ ·) values later
      · exact congrArg₂ (· || ·) reboots reboots'

theorem shows_boot : Shows 0 ⟨false, false, false, false⟩ := ⟨rfl, rfl, rfl, rfl, rfl⟩

/-- From the first key on: the characters, the requests to reboot and the state of the modifiers
are those of a keyboard that knows keys only, with no trace of the bytes they arrive in. -/
theorem keyboard_decodes (events : List KeyboardEvent) :
    let codes := events.flatMap KeyboardEvent.scanCodes
    let k : KeyState := ⟨false, false, false, false⟩
    nonzero (kbdValues 0 codes) = k.text events ∧ kbdReboots 0 codes = k.everReboots events ∧
      Shows (shiftBehind 0 codes) (k.after events) :=
  shows_boot.run events

theorem getcs_append (first second : List (List Byte)) (input : Input) :
    ∃ input', getcs input (first ++ second) = getcs input first ++ getcs input' second ∧
      input' = first.foldl (fun input codes => (pollGetc input codes).2) input := by
  induction first generalizing input with
  | nil => exact ⟨input, rfl, rfl⟩
  | cons codes first ih =>
      obtain ⟨input', values, last⟩ := ih (pollGetc input codes).2
      refine ⟨input', ?_, last⟩
      exact congrArg ((pollGetc input codes).1 :: ·) values

theorem pollGetc_spec (holds : input.cons.Holds consBufSize queue) (nonNull : ∀ c ∈ queue, c ≠ 0)
    {codes : List Byte}
    (room : queue.length + (nonzero (kbdValues input.shift codes)).length < consBufSize) :
    ∃ rest, (pollGetc input codes).2.cons.Holds consBufSize rest ∧ (∀ c ∈ rest, c ≠ 0) ∧
      rest.length = queue.length + (nonzero (kbdValues input.shift codes)).length - 1 ∧
      nonzero [(pollGetc input codes).1] ++ rest =
        queue ++ nonzero (kbdValues input.shift codes) ∧
      (pollGetc input codes).2.shift = shiftBehind input.shift codes := by
  have stored := consIntr_holds holds room
  have waiting : ∀ c ∈ queue ++ nonzero (kbdValues input.shift codes), c ≠ 0 := by
    intro c member
    rcases List.mem_append.mp member with old | new
    · exact nonNull c old
    · exact ne_zero_of_mem_nonzero new
  rw [← List.length_append]
  generalize queue ++ nonzero (kbdValues input.shift codes) = arrived at stored waiting ⊢
  cases arrived with
  | nil =>
      have poll : pollGetc input codes = (0, ⟨shiftBehind input.shift codes,
          consIntr input.cons (kbdValues input.shift codes)⟩) := by
        simp only [pollGetc, consGetc, consIntr, stored.get_nil]
      rw [poll]
      exact ⟨[], stored, waiting, rfl, rfl, rfl⟩
  | cons c rest =>
      obtain ⟨cons, got, left⟩ := stored.get_cons
      have poll : pollGetc input codes = (c, ⟨shiftBehind input.shift codes, cons⟩) := by
        simp only [pollGetc, consGetc, consIntr, got]
      have some : c ≠ 0 := waiting c (List.mem_cons_self ..)
      rw [poll, nonzero_cons some]
      exact ⟨rest, left, fun c member => waiting c (List.mem_cons_of_mem _ member), rfl, rfl, rfl⟩

/-- However the bytes are divided among the polls, nothing is lost and nothing comes twice. -/
theorem getcs_spec (holds : input.cons.Holds consBufSize queue) (nonNull : ∀ c ∈ queue, c ≠ 0)
    (roomy : Roomy queue.length input.shift polls) :
    ∃ rest, (polls.foldl (fun input codes => (pollGetc input codes).2) input).cons.Holds
        consBufSize rest ∧ (∀ c ∈ rest, c ≠ 0) ∧
      nonzero (getcs input polls) ++ rest =
        queue ++ nonzero (kbdValues input.shift polls.flatten) := by
  induction polls generalizing input queue with
  | nil =>
      refine ⟨queue, holds, nonNull, ?_⟩
      exact (List.append_nil queue).symm
  | cons codes polls ih =>
      obtain ⟨room, roomy⟩ := roomy
      obtain ⟨middle, holds', nonNull', length, kept, shift⟩ := pollGetc_spec holds nonNull room
      rw [← length, ← shift] at roomy
      obtain ⟨rest, last, nonNull'', all⟩ := ih holds' nonNull' roomy
      refine ⟨rest, last, nonNull'', ?_⟩
      have values : nonzero (getcs input (codes :: polls)) =
          nonzero [(pollGetc input codes).1] ++ nonzero (getcs (pollGetc input codes).2 polls) := by
        rw [nonzero, nonzero, nonzero, ← List.filter_append]
        rfl
      have decoded : nonzero (kbdValues input.shift (codes :: polls).flatten) =
          nonzero (kbdValues input.shift codes) ++
            nonzero (kbdValues (shiftBehind input.shift codes) polls.flatten) := by
        rw [List.flatten_cons, kbdValues_append, nonzero, List.filter_append]
        rfl
      rw [values, List.append_assoc, all, ← List.append_assoc, kept, decoded, shift,
        List.append_assoc]

theorem getcs_idle (holds : input.cons.Holds consBufSize queue) (nonNull : ∀ c ∈ queue, c ≠ 0)
    {n : Nat} (enough : queue.length ≤ n) : nonzero (getcs input (List.replicate n [])) = queue := by
  induction n generalizing input queue with
  | zero =>
      rw [List.length_eq_zero_iff.mp (Nat.le_zero.mp enough)]
      rfl
  | succ n ih =>
      have none : nonzero (kbdValues input.shift []) = [] := rfl
      have room : queue.length + (nonzero (kbdValues input.shift [])).length < consBufSize := by
        rw [none]
        exact holds.fits
      obtain ⟨rest, holds', nonNull', length, kept, _⟩ := pollGetc_spec holds nonNull room
      rw [none, List.append_nil] at kept
      rw [none, List.length_nil] at length
      have later := ih holds' nonNull' (by omega)
      rw [← kept, ← later, List.replicate_succ, nonzero, nonzero, nonzero, ← List.filter_append]
      rfl

/-- Everything that was typed has been returned when enough polls have found nothing new. -/
theorem getcs_typed (empty : input.cons.Holds consBufSize []) (shows : Shows input.shift k)
    {events : List KeyboardEvent}
    (sent : polls.flatten = events.flatMap KeyboardEvent.scanCodes)
    (roomy : Roomy 0 input.shift polls) {n : Nat} (enough : (k.text events).length ≤ n) :
    nonzero (getcs input (polls ++ List.replicate n [])) = k.text events := by
  obtain ⟨rest, holds, nonNull, all⟩ := getcs_spec empty (by simp) roomy
  rw [sent, (shows.run events).1, List.nil_append] at all
  obtain ⟨input', values, last⟩ := getcs_append polls (List.replicate n []) input
  rw [← last] at holds
  have short : rest.length ≤ n := by
    have length := congrArg List.length all
    rw [List.length_append] at length
    omega
  rw [values, nonzero, List.filter_append, ← all]
  exact congrArg (nonzero (getcs input polls) ++ ·) (getcs_idle holds nonNull short)

end Polls

/-! ## The prompt -/

structure Session (σ : Type) where
  commandLine : Nat → Byte
  inputs : List Byte
  console : σ
  executed : List (Nat → Byte)

section Prompt

variable {σ : Type} (cputchar : σ → Word → σ) (load : Word → Except Stop Byte) (prompt : Word)
  (executeCommand : (Nat → Byte) → σ → Except Stop (Word × (Nat → Byte) × σ))

/-- The loop for `n` more commands: `none` when it has been left. -/
def runCommandPrompt : Nat → Session σ → Session σ × Option (Except Stop Unit)
  | 0, s => (s, some (.ok ()))
  | n + 1, s =>
      match readline cputchar load prompt s.commandLine s.inputs s.console with
      | .error stop => (s, some (.error stop))
      | .ok (.waiting line) => (⟨line.buf, [], line.console, s.executed⟩, some (.ok ()))
      | .ok (.returned line inputs) =>
          let s := ⟨line.buf, inputs, line.console, s.executed ++ [line.buf]⟩
          match executeCommand line.buf line.console with
          | .error stop => (s, some (.error stop))
          | .ok (result, commandLine, console) =>
              let s := { s with commandLine := commandLine, console := console }
              if result.toInt < 0 then (s, none) else runCommandPrompt n s

end Prompt

def endedLines : List Byte → List Byte → List (List Byte)
  | _, [] => []
  | line, c :: text =>
      if c = char '\n' ∨ c = char '\r' then line :: endedLines [] text
      else endedLines (line ++ [c]) text

def HoldsEdited (buf : Nat → Byte) (line : List Byte) : Prop :=
  ∃ before, HoldsLine before buf (editLine line)

section Lines

theorem endedLines_append {before : List Byte} (goesOn : ∀ c ∈ before, c ≠ char '\n' ∧ c ≠ char '\r')
    (line text : List Byte) : endedLines line (before ++ text) = endedLines (line ++ before) text := by
  induction before generalizing line with
  | nil => rw [List.nil_append, List.append_nil]
  | cons c before ih =>
      have here := goesOn c (List.mem_cons_self ..)
      rw [List.cons_append, endedLines, if_neg (by tauto),
        ih (fun c member => goesOn c (List.mem_cons_of_mem _ member)), List.append_assoc]
      rfl

theorem exists_firstEnd (inputs : List Byte) : (∀ c ∈ inputs, c ≠ char '\n' ∧ c ≠ char '\r') ∨
    ∃ before c rest, inputs = before ++ c :: rest ∧ (c = char '\n' ∨ c = char '\r') ∧
      ∀ c ∈ before, c ≠ char '\n' ∧ c ≠ char '\r' := by
  induction inputs with
  | nil => exact Or.inl (by simp)
  | cons c inputs ih =>
      by_cases ends : c = char '\n' ∨ c = char '\r'
      · exact Or.inr ⟨[], c, inputs, rfl, ends, by simp⟩
      · have here : c ≠ char '\n' ∧ c ≠ char '\r' := not_or.mp ends
        rcases ih with none | ⟨before, last, rest, rfl, ends, goesOn⟩
        · exact Or.inl (List.forall_mem_cons.mpr ⟨here, none⟩)
        · exact Or.inr ⟨c :: before, last, rest, rfl, ends, List.forall_mem_cons.mpr ⟨here, goesOn⟩⟩

theorem nonzero_goesOn {inputs : List Byte} (goesOn : ∀ c ∈ inputs, c ≠ char '\n' ∧ c ≠ char '\r') :
    ∀ c ∈ nonzero inputs, c ≠ char '\n' ∧ c ≠ char '\r' :=
  fun c member => goesOn c (List.mem_filter.mp member).1

theorem editLine_nonzero (inputs : List Byte) : editLine (nonzero inputs) = editLine inputs := by
  have folded : ∀ text, (nonzero inputs).foldl (editChar 1023) text =
      inputs.foldl (editChar 1023) text := by
    induction inputs with
    | nil => exact fun _ => rfl
    | cons c inputs ih =>
        intro text
        by_cases nul : c = 0
        · rw [nul, nonzero_cons_zero, ih]
          rfl
        · rw [nonzero_cons nul, List.foldl_cons, List.foldl_cons, ih]
  exact folded []

end Lines

section Sessions

variable {σ : Type} {cputchar : σ → Word → σ} {load : Word → Except Stop Byte} {prompt : Word}
  {executeCommand : (Nat → Byte) → σ → Except Stop (Word × (Nat → Byte) × σ)}

theorem readlineLoop_waits {inputs : List Byte}
    (goesOn : ∀ c ∈ inputs, c ≠ char '\n' ∧ c ≠ char '\r') {buf : Nat → Byte} {line : LineEdit σ}
    {text : List Byte} (editing : Editing buf line text) :
    ∃ line', readlineLoop cputchar load inputs line = .ok (.waiting line') := by
  obtain ⟨line', _, reads⟩ := readlineLoop_editing editing goesOn
  have read := reads []
  rw [List.append_nil] at read
  exact ⟨line', read⟩

theorem endedLines_split {before rest : List Byte} {c : Byte} (ends : c = char '\n' ∨ c = char '\r')
    (goesOn : ∀ c ∈ before, c ≠ char '\n' ∧ c ≠ char '\r') :
    endedLines [] (nonzero (before ++ c :: rest)) =
      nonzero before :: endedLines [] (nonzero rest) := by
  have some : c ≠ 0 := by
    rintro rfl
    exact absurd ends (by decide)
  have filtered : nonzero (before ++ c :: rest) = nonzero before ++ c :: nonzero rest := by
    rw [← nonzero_cons some]
    exact List.filter_append ..
  rw [filtered, endedLines_append (nonzero_goesOn goesOn), endedLines, if_pos ends]
  rfl

theorem readline_turn {buf : Nat → Byte} {inputs : List Byte} {console console' : σ}
    (prompted : putPrompt cputchar load prompt console = .ok console') :
    (endedLines [] (nonzero inputs) = [] ∧ ∃ line,
      readline cputchar load prompt buf inputs console = .ok (.waiting line)) ∨
    ∃ line rest first, readline cputchar load prompt buf inputs console =
        .ok (.returned line rest) ∧ HoldsEdited line.buf first ∧
      endedLines [] (nonzero inputs) = first :: endedLines [] (nonzero rest) := by
  rcases exists_firstEnd inputs with none | ⟨before, c, rest, rfl, ends, goesOn⟩
  · refine Or.inl ⟨?_, ?_⟩
    · have lines := endedLines_append (nonzero_goesOn none) [] []
      rwa [List.append_nil] at lines
    · obtain ⟨line, waits⟩ := @readlineLoop_waits σ cputchar load inputs none buf ⟨0, buf, console'⟩
        [] (.start buf console')
      refine ⟨line, ?_⟩
      rw [readline, prompted, ok_bind, waits]
  · obtain ⟨line, read, holds⟩ := readline_edits prompted buf goesOn ends rest
    refine Or.inr ⟨line, rest, nonzero before, read, ⟨buf, ?_⟩, endedLines_split ends goesOn⟩
    rw [editLine_nonzero]
    exact holds

/-- What `run_command_prompt` executes are the ended lines as they were edited, the first ones
first, and all that it was given time for unless a command does not return. -/
theorem runCommandPrompt_executes (n : Nat) (s : Session σ) :
    ∃ done, (runCommandPrompt cputchar load prompt executeCommand n s).1.executed =
        s.executed ++ done ∧
      List.Forall₂ HoldsEdited done ((endedLines [] (nonzero s.inputs)).take done.length) ∧
      ((runCommandPrompt cputchar load prompt executeCommand n s).2 = some (.ok ()) →
        done.length = min n (endedLines [] (nonzero s.inputs)).length) := by
  induction n generalizing s with
  | zero => exact ⟨[], (List.append_nil _).symm, List.Forall₂.nil, fun _ => (Nat.zero_min _).symm⟩
  | succ n ih =>
      cases prompted : putPrompt cputchar load prompt s.console with
      | error stop =>
          have read : readline cputchar load prompt s.commandLine s.inputs s.console =
              .error stop := by
            rw [readline, prompted]
            rfl
          simp only [runCommandPrompt, read]
          exact ⟨[], (List.append_nil _).symm, List.Forall₂.nil, fun ok => by cases ok⟩
      | ok console =>
          rcases @readline_turn σ cputchar load prompt s.commandLine s.inputs _ _ prompted with
            ⟨none, line, read⟩ | ⟨line, rest, first, read, holds, split⟩
          · simp only [runCommandPrompt, read, none]
            exact ⟨[], (List.append_nil _).symm, List.Forall₂.nil, fun _ => (Nat.min_zero _).symm⟩
          · have once : List.Forall₂ HoldsEdited [line.buf]
                ((endedLines [] (nonzero s.inputs)).take [line.buf].length) := by
              rw [split]
              exact List.Forall₂.cons holds List.Forall₂.nil
            simp only [runCommandPrompt, read]
            cases called : executeCommand line.buf line.console with
            | error stop => exact ⟨[line.buf], rfl, once, fun ok => by cases ok⟩
            | ok outcome =>
                obtain ⟨result, commandLine, console'⟩ := outcome
                by_cases leaves : result.toInt < 0
                · simp only [leaves, if_true]
                  exact ⟨[line.buf], rfl, once, fun ok => by cases ok⟩
                · simp only [leaves, if_false]
                  obtain ⟨done, executed, lines, all⟩ :=
                    ih ⟨commandLine, rest, console', s.executed ++ [line.buf]⟩
                  refine ⟨line.buf :: done, ?_, ?_, ?_⟩
                  · rw [executed, List.append_assoc]
                    rfl
                  · rw [split]
                    exact List.Forall₂.cons holds lines
                  · intro ok
                    rw [split, List.length_cons, List.length_cons, all ok, Nat.succ_min_succ]

def keyA : ScanKey := ⟨false, 0x1E, by decide⟩

def keyEnter : ScanKey := ⟨false, 0x1C, by decide⟩

theorem emptyCons_holds : emptyCons.Holds consBufSize [] := RingBuffer.holds_nil (by decide) rfl

end Sessions

/-! ## Typing what is to be printed -/

section Typist

def plainKey (code : Fin 96) : ScanKey := ⟨false, BitVec.ofNat 7 code, by revert code; decide⟩

def atRest (caps : Bool) : KeyState := ⟨false, false, false, caps⟩

def keyFor (k : KeyState) (c : Byte) : Option ScanKey :=
  ((List.finRange 96).map plainKey).find? fun key => (k.press key).charOf key == c

def typeChar (caps : Bool) (c : Byte) : List KeyboardEvent :=
  match keyFor (atRest caps) c with
  | some key => [.press key, .release key]
  | none =>
      match keyFor ((atRest caps).press leftShift) c with
      | some key => [.press leftShift, .press key, .release key, .release leftShift]
      | none => []

def typeLine (caps : Bool) (line : List Byte) : List KeyboardEvent :=
  line.flatMap (typeChar caps) ++ typeChar caps (char '\n')

def Printable (c : Byte) : Prop := 0x20 ≤ c.toNat ∧ c.toNat < 0x7F

instance (c : Byte) : Decidable (Printable c) :=
  inferInstanceAs (Decidable (0x20 ≤ c.toNat ∧ c.toNat < 0x7F))

theorem typeChar_table : ∀ (caps : Bool) (i : Fin 128), 32 ≤ i.val ∧ i.val < 127 ∨ i.val = 10 →
    (atRest caps).text (typeChar caps (BitVec.ofNat 8 i.val)) = [BitVec.ofNat 8 i.val] ∧
      (atRest caps).after (typeChar caps (BitVec.ofNat 8 i.val)) = atRest caps := by
  decide +kernel

variable {caps : Bool} {line : List Byte} {lines : List (List Byte)}

theorem typeChar_text {c : Byte} (typable : Printable c ∨ c = char '\n') :
    (atRest caps).text (typeChar caps c) = [c] ∧
      (atRest caps).after (typeChar caps c) = atRest caps := by
  have same : BitVec.ofNat 8 c.toNat = c := BitVec.ofNat_toNat .. |>.trans (BitVec.setWidth_eq c)
  have range : 32 ≤ c.toNat ∧ c.toNat < 127 ∨ c.toNat = 10 := typable.imp_right (congrArg BitVec.toNat)
  have row := typeChar_table caps ⟨c.toNat, by omega⟩ range
  rwa [same] at row

theorem text_append (k : KeyState) (first second : List KeyboardEvent) :
    k.text (first ++ second) = k.text first ++ (k.after first).text second := by
  induction first generalizing k with
  | nil => rfl
  | cons event first ih =>
      rw [List.cons_append, KeyState.text, KeyState.text, ih, List.append_assoc]
      rfl

theorem typeChars_text {text : List Byte} (typable : ∀ c ∈ text, Printable c ∨ c = char '\n') :
    (atRest caps).text (text.flatMap (typeChar caps)) = text ∧
      (atRest caps).after (text.flatMap (typeChar caps)) = atRest caps := by
  induction text with
  | nil => exact ⟨rfl, rfl⟩
  | cons c text ih =>
      obtain ⟨one, rest⟩ := typeChar_text (typable c (List.mem_cons_self ..))
      obtain ⟨others, last⟩ := ih fun c member => typable c (List.mem_cons_of_mem _ member)
      rw [List.flatMap_cons, text_append, one, rest, others]
      refine ⟨rfl, ?_⟩
      rw [KeyState.after, List.foldl_append]
      exact (congrArg (fun k => KeyState.after k _) rest).trans last

def typedText (lines : List (List Byte)) : List Byte := lines.flatMap (· ++ [char '\n'])

theorem typedText_text (printable : ∀ line ∈ lines, ∀ c ∈ line, Printable c) :
    (atRest caps).text (lines.flatMap (typeLine caps)) = typedText lines := by
  have keys : lines.flatMap (typeLine caps) = (typedText lines).flatMap (typeChar caps) := by
    rw [typedText, List.flatMap_assoc]
    congr 1
    funext line
    rw [typeLine, List.flatMap_append, List.flatMap_singleton]
  rw [keys]
  refine (typeChars_text ?_).1
  intro c member
  obtain ⟨line, inLines, within⟩ := List.mem_flatMap.mp member
  rcases List.mem_append.mp within with inLine | last
  · exact Or.inl (printable line inLines c inLine)
  · exact Or.inr (List.mem_singleton.mp last)

theorem Printable.goesOn {c : Byte} (printable : Printable c) : c ≠ char '\n' ∧ c ≠ char '\r' := by
  constructor
  · rintro rfl
    exact absurd printable.1 (by decide)
  · rintro rfl
    exact absurd printable.1 (by decide)

theorem endedLines_typedText (printable : ∀ line ∈ lines, ∀ c ∈ line, Printable c) :
    endedLines [] (typedText lines) = lines := by
  induction lines with
  | nil => rfl
  | cons line lines ih =>
      have here : ∀ c ∈ line, c ≠ char '\n' ∧ c ≠ char '\r' :=
        fun c member => (printable line (List.mem_cons_self ..) c member).goesOn
      have split : typedText (line :: lines) = line ++ (char '\n' :: typedText lines) := by
        rw [typedText, List.flatMap_cons, List.append_assoc]
        rfl
      rw [split, endedLines_append here, endedLines, if_pos (Or.inl rfl), List.nil_append,
        ih fun line member => printable line (List.mem_cons_of_mem _ member)]

/-- No character of a printable line is edited away, if it is short enough. -/
theorem editLine_printable (short : line.length ≤ 1023) (printable : ∀ c ∈ line, Printable c) :
    editLine line = line := by
  have appended : ∀ text : List Byte, text.length + line.length ≤ 1023 →
      line.foldl (editChar 1023) text = text ++ line := by
    clear short
    induction line with
    | nil => exact fun text _ => (List.append_nil text).symm
    | cons c line ih =>
        intro text room
        rw [List.length_cons] at room
        have isText := (printable c (List.mem_cons_self ..)).1
        have kept : editChar 1023 text c = text ++ [c] := by
          rw [editChar, if_pos isText, if_pos (by omega)]
        have length : (text ++ [c]).length = text.length + 1 := List.length_append
        rw [List.foldl_cons, kept, ih (fun c member => printable c (List.mem_cons_of_mem _ member)) _
          (by omega), List.append_assoc]
        rfl
  exact appended [] (by rw [List.length_nil]; omega)

theorem forall₂_edited {done : List (Nat → Byte)}
    (printable : ∀ line ∈ lines, line.length ≤ 1023 ∧ ∀ c ∈ line, Printable c)
    (edited : List.Forall₂ HoldsEdited done lines) :
    List.Forall₂ (fun buf line => ∃ before, HoldsLine before buf line) done lines := by
  induction edited with
  | nil => exact List.Forall₂.nil
  | @cons buf line _ _ holds _ ih =>
      obtain ⟨short, isText⟩ := printable line (List.mem_cons_self ..)
      refine List.Forall₂.cons ?_ (ih fun line member => printable line (List.mem_cons_of_mem _ member))
      obtain ⟨before, holds⟩ := holds
      rw [editLine_printable short isText] at holds
      exact ⟨before, holds⟩

end Typist

end FosV2
