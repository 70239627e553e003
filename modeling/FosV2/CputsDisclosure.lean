import FosV2.PrintText
import FosV2.Syscall
import Mathlib.Data.Nat.Find
import Mathlib.Tactic.SplitIfs

/-!
What `SYS_cputs` gives away. The check of the user's memory in `sys_cputs` was left to be
written, so the kernel reads the string through the loaded directory with its own rights.
-/

namespace FosV2

def ReadablePage (κ : Kernel) (i j : Nat) : Prop :=
  let directoryEntry := κ.memory.memory κ.cr3 i
  let entry := κ.memory.memory (entryFrame directoryEntry) j
  (present directoryEntry ∧ directoryEntry &&& permUser = permUser) ∧
    (present entry ∧ entry &&& permUser = permUser)

instance (κ : Kernel) (i j : Nat) : Decidable (ReadablePage κ i j) :=
  inferInstanceAs (Decidable ((_ ∧ _) ∧ (_ ∧ _)))

def UserReadable (κ : Kernel) (va : Word) : Prop := ReadablePage κ (pdx va) (ptx va)

structure SameForUser (κ κ' : Kernel) : Prop where
  outside : κ' = { κ with memory := κ'.memory }
  readable : ∀ va, UserReadable κ' va ↔ UserReadable κ va
  bytes : ∀ va, UserReadable κ va → κ'.loadByte va = κ.loadByte va

/-- What a call comes to. A page fault of the kernel destroys the environment. -/
inductive CallOutcome where
  | printed (output : List Byte)
  | destroyed
  | stopped (stop : Stop)

def callOutcome : Except Stop (Word × Kernel) → CallOutcome
  | .ok (_, κ) => .printed κ.output
  | .error (.pageFault _) => .destroyed
  | .error stop => .stopped stop

def sysCputsNumber : Word := 0

def NonDisclosing (κ : Kernel) (s len : Word) : Prop :=
  ∀ κ', SameForUser κ κ' → ∀ a3 a4 a5,
    callOutcome (syscall κ' sysCputsNumber s len a3 a4 a5) =
      callOutcome (syscall κ sysCputsNumber s len a3 a4 a5)

def ReadsOnlyUser (κ : Kernel) (s len : Word) : Prop :=
  s = 0 ∨ ∀ n, Looked (textAt κ.loadByte s) len 0 n → UserReadable κ (s + BitVec.ofNat 32 n)

def KernelPrivate (κ : Kernel) : Prop := ∀ va, UserReadable κ va → va < userLimit

/-! The call in terms of the text behind `s` -/

def cputsEscape (len : Word) : Escape := ⟨char ' ', 0, len, 0, false⟩

section Call

variable {κ κ' : Kernel} {s len : Word}

def cputsText (load : Word → Except Stop Byte) (s len : Word) : Except Stop (List Word) :=
  putString record (textAt load s) (cputsEscape len) []

theorem printed_cputs (load : Word → Except Stop Byte) (s len : Word) :
    printed load ("%.*s".toList.map char) (fun i => if i = 0 then len else s) =
      cputsText load s len :=
  vprintfmt_escape (".*s".toList.map char) rfl convert_string

theorem sysCputs_eq (κ : Kernel) (s len : Word) :
    sysCputs κ s len =
      (fun chars => chars.foldl Kernel.putch κ) <$> cputsText κ.loadByte s len := by
  rw [sysCputs]
  cases text : cputsText κ.loadByte s len with
  | error stop =>
      rw [kernelVcprintf, vprintfmt_eq_printed, printed_cputs, text]
      rfl
  | ok chars =>
      rw [← printed_cputs] at text
      rw [kernelVcprintf_printed Kernel.putch text]
      rfl

theorem output_foldl_putch (chars : List Word) (κ : Kernel) :
    (chars.foldl Kernel.putch κ).output = κ.output ++ chars.map (BitVec.setWidth 8) := by
  induction chars generalizing κ with
  | nil => exact (List.append_nil _).symm
  | cons ch rest ih =>
      rw [List.foldl_cons, ih]
      simp [Kernel.putch]

theorem callOutcome_cputs (κ : Kernel) (s len a3 a4 a5 : Word) :
    callOutcome (syscall κ sysCputsNumber s len a3 a4 a5) =
      match cputsText κ.loadByte s len with
      | .ok chars => .printed (κ.output ++ chars.map (BitVec.setWidth 8))
      | .error (.pageFault _) => .destroyed
      | .error stop => .stopped stop := by
  have called : syscall κ sysCputsNumber s len a3 a4 a5 = (do
      let κ ← sysCputs κ s len
      return (0, κ)) := rfl
  rw [called, sysCputs_eq]
  cases cputsText κ.loadByte s len with
  | error stop => cases stop <;> rfl
  | ok chars => exact congrArg CallOutcome.printed (output_foldl_putch chars κ)

theorem cputsText_eq (load : Word → Except Stop Byte) (s len : Word) :
    cputsText load s len = (do
      let (left, chars) ← putText record (textAt load s) false textFuel 0 len 0 []
      return putPadding record left (char ' ') chars) := rfl

theorem cputsText_congr {load load' : Word → Except Stop Byte}
    (same : ∀ n, Looked (textAt load s) len 0 n → textAt load' s n = textAt load s n) :
    cputsText load' s len = cputsText load s len := by
  rw [cputsText_eq, cputsText_eq, putText_congr same]

theorem textAt_of_ne {load : Word → Except Stop Byte} (notNull : s ≠ 0) (n : Nat) :
    textAt load s n = load (s + BitVec.ofNat 32 n) := by
  rw [textAt, if_neg notNull]

theorem nonDisclosing_of_readsOnlyUser (confined : ReadsOnlyUser κ s len) :
    NonDisclosing κ s len := by
  intro κ' same a3 a4 a5
  have texts : cputsText κ'.loadByte s len = cputsText κ.loadByte s len := by
    apply cputsText_congr
    intro n looked
    rcases confined with null | readable
    · rw [null]
      rfl
    · by_cases null : s = 0
      · rw [null]
        rfl
      · rw [textAt_of_ne null, textAt_of_ne null]
        exact same.bytes _ (readable n looked)
  have output : κ'.output = κ.output := by rw [same.outside]
  rw [callOutcome_cputs, callOutcome_cputs, texts, output]

end Call

/-! A state that looks the same to the user, with one entry for all pages that it may not
read. The directory stays in its frame, everything else moves to frames of its own. -/

def spareFrame (cr3 n : Nat) : Nat := if n < cr3 then n else n + 1

def spareIndex (cr3 frame : Nat) : Nat := if frame < cr3 then frame else frame - 1

def firstTable : Nat := 958 * 1024

def userEntry (frame : Nat) : Word :=
  constructEntry (toPhysicalAddress frame) (permUser ||| permPresent)

def kernelEntry (cr3 : Nat) : Word :=
  constructEntry (toPhysicalAddress (spareFrame cr3 (firstTable + 1024))) permPresent

def disguisedTable (κ : Kernel) (hidden : Word) (i j : Nat) : Word :=
  if ReadablePage κ i j then userEntry (spareFrame κ.cr3 (i * 1024 + j)) else hidden

def disguisedMemory (κ : Kernel) (hidden : Word) (frame index : Nat) : Word :=
  let n := spareIndex κ.cr3 frame
  if frame = κ.cr3 then userEntry (spareFrame κ.cr3 (firstTable + index))
  else if n < firstTable then
    let entry := κ.memory.memory (entryFrame (κ.memory.memory κ.cr3 (n / 1024))) (n % 1024)
    κ.memory.memory (entryFrame entry) index
  else if n < firstTable + 1024 then disguisedTable κ hidden (n - firstTable) index
  else 0

def disguised (κ : Kernel) (hidden : Word) : Kernel :=
  { κ with memory := { κ.memory with memory := disguisedMemory κ hidden } }

section Disguise

variable {κ : Kernel} {hidden : Word} {n i j : Nat} {va : Word}

theorem spareFrame_ne (cr3 n : Nat) : spareFrame cr3 n ≠ cr3 := by
  rw [spareFrame]
  split <;> omega

theorem spareIndex_spareFrame (cr3 n : Nat) : spareIndex cr3 (spareFrame cr3 n) = n := by
  rw [spareIndex, spareFrame]
  split_ifs <;> omega

theorem spareFrame_lt (cr3 : Nat) (small : n ≤ firstTable + 1024) :
    spareFrame cr3 n < 1048576 := by
  have first : firstTable = 980992 := rfl
  rw [spareFrame]
  split <;> omega

theorem user_eq_lowBits (entry : Word) : entry &&& permUser = lowBits entry &&& permUser := by
  have inside : (0xFFF : Word) &&& permUser = permUser := by decide
  rw [lowBits, BitVec.and_assoc, inside]

theorem entryFrame_userEntry (cr3 : Nat) (small : n ≤ firstTable + 1024) :
    entryFrame (userEntry (spareFrame cr3 n)) = spareFrame cr3 n :=
  entryFrame_constructEntry (spareFrame_lt cr3 small) (by decide)

theorem present_userEntry (frame : Nat) : present (userEntry frame) :=
  present_constructEntry _ permUser

theorem user_userEntry (cr3 : Nat) (small : n ≤ firstTable + 1024) :
    userEntry (spareFrame cr3 n) &&& permUser = permUser := by
  rw [user_eq_lowBits, userEntry, lowBits_constructEntry (spareFrame_lt cr3 small) (by decide)]
  decide

theorem present_kernelEntry (cr3 : Nat) : present (kernelEntry cr3) := by
  have kernelOnly := present_constructEntry
    (toPhysicalAddress (spareFrame cr3 (firstTable + 1024))) 0
  have flags : 0 ||| permPresent = permPresent := by decide
  rwa [flags] at kernelOnly

theorem user_kernelEntry (cr3 : Nat) : kernelEntry cr3 &&& permUser ≠ permUser := by
  rw [user_eq_lowBits, kernelEntry,
    lowBits_constructEntry (spareFrame_lt cr3 (Nat.le_refl _)) (by decide)]
  decide

theorem disguisedMemory_directory (κ : Kernel) (hidden : Word) (i : Nat) :
    disguisedMemory κ hidden κ.cr3 i = userEntry (spareFrame κ.cr3 (firstTable + i)) :=
  if_pos rfl

theorem disguisedMemory_table (κ : Kernel) (hidden : Word) (inside : i < 1024) (j : Nat) :
    disguisedMemory κ hidden (spareFrame κ.cr3 (firstTable + i)) j =
      disguisedTable κ hidden i j := by
  simp only [disguisedMemory, spareIndex_spareFrame]
  rw [if_neg (spareFrame_ne _ _), if_neg (by omega), if_pos (by omega), Nat.add_sub_cancel_left]

theorem disguisedMemory_page (κ : Kernel) (hidden : Word) (below : i < 958) (inside : j < 1024)
    (index : Nat) :
    disguisedMemory κ hidden (spareFrame κ.cr3 (i * 1024 + j)) index =
      κ.memory.memory (entryFrame (κ.memory.memory
        (entryFrame (κ.memory.memory κ.cr3 i)) j)) index := by
  have first : firstTable = 980992 := rfl
  have quotient : (i * 1024 + j) / 1024 = i := by omega
  have remainder : (i * 1024 + j) % 1024 = j := by omega
  simp only [disguisedMemory, spareIndex_spareFrame]
  rw [if_neg (spareFrame_ne _ _), if_pos (by omega), quotient, remainder]

theorem disguisedMemory_zero (κ : Kernel) (hidden : Word) (index : Nat) :
    disguisedMemory κ hidden (spareFrame κ.cr3 (firstTable + 1024)) index = 0 := by
  simp only [disguisedMemory, spareIndex_spareFrame]
  rw [if_neg (spareFrame_ne _ _), if_neg (by omega), if_neg (by omega)]

theorem disguised_walk (κ : Kernel) (hidden : Word) (inside : i < 1024) (j : Nat) :
    (disguised κ hidden).memory.memory
        (entryFrame ((disguised κ hidden).memory.memory (disguised κ hidden).cr3 i)) j =
      disguisedTable κ hidden i j := by
  change disguisedMemory κ hidden (entryFrame (disguisedMemory κ hidden κ.cr3 i)) j = _
  rw [disguisedMemory_directory, entryFrame_userEntry κ.cr3 (by omega),
    disguisedMemory_table κ hidden inside]

theorem disguised_directory (κ : Kernel) (hidden : Word) (inside : i < 1024) :
    present ((disguised κ hidden).memory.memory (disguised κ hidden).cr3 i) ∧
      (disguised κ hidden).memory.memory (disguised κ hidden).cr3 i &&& permUser = permUser := by
  have word : (disguised κ hidden).memory.memory (disguised κ hidden).cr3 i =
      userEntry (spareFrame κ.cr3 (firstTable + i)) := disguisedMemory_directory κ hidden i
  rw [word]
  exact ⟨present_userEntry _, user_userEntry κ.cr3 (by omega)⟩

theorem readablePage_disguised (private_ : ReadablePage κ i j → i < 958) (inside : i < 1024)
    (column : j < 1024) (notUser : hidden &&& permUser ≠ permUser) :
    ReadablePage (disguised κ hidden) i j ↔ ReadablePage κ i j := by
  have first : firstTable = 980992 := rfl
  have directory := disguised_directory κ hidden inside
  have walk := disguised_walk κ hidden inside j
  rw [disguisedTable] at walk
  constructor
  · rintro ⟨_, _, user⟩
    by_contra unreadable
    rw [walk, if_neg unreadable] at user
    exact notUser user
  · intro readable
    have below := private_ readable
    refine ⟨directory, ?_⟩
    rw [walk, if_pos readable]
    exact ⟨present_userEntry _, user_userEntry κ.cr3 (by omega)⟩

theorem load_disguised (κ : Kernel) (hidden va : Word) :
    (disguised κ hidden).load va =
      let entry := disguisedTable κ hidden (pdx va) (ptx va)
      if ¬present entry then .error (.pageFault va)
      else .ok (disguisedMemory κ hidden (entryFrame entry) (va.toNat % 4096 / 4)) := by
  have directory := disguised_directory κ hidden (pdx_lt va)
  have walk := disguised_walk κ hidden (pdx_lt va) (ptx va)
  simp only [Kernel.load]
  rw [if_neg (not_not.mpr directory.1), walk]
  rfl

theorem load_of_readable (readable : UserReadable κ va) :
    κ.load va = .ok (κ.memory.memory (entryFrame (κ.memory.memory
      (entryFrame (κ.memory.memory κ.cr3 (pdx va))) (ptx va))) (va.toNat % 4096 / 4)) := by
  simp only [Kernel.load]
  rw [if_neg (not_not.mpr readable.1.1), if_neg (not_not.mpr readable.2.1)]

theorem pdx_of_private (isPrivate : KernelPrivate κ) (readable : UserReadable κ va) :
    pdx va < 958 := by
  have below : va.toNat < userLimit.toNat := isPrivate va readable
  have limit : userLimit.toNat = 4018143232 := by decide
  rw [pdx_eq]
  omega

theorem load_disguised_readable (isPrivate : KernelPrivate κ) (hidden : Word)
    (readable : UserReadable κ va) : (disguised κ hidden).load va = κ.load va := by
  have first : firstTable = 980992 := rfl
  have column : ptx va < 1024 := nptEntries_eq ▸ ptx_lt va
  have row := pdx_of_private isPrivate readable
  have entry : disguisedTable κ hidden (pdx va) (ptx va) =
      userEntry (spareFrame κ.cr3 (pdx va * 1024 + ptx va)) := if_pos readable
  rw [load_disguised, load_of_readable readable]
  simp only [entry]
  rw [if_neg (not_not.mpr (present_userEntry _)), entryFrame_userEntry κ.cr3 (by omega),
    disguisedMemory_page κ hidden row column]

theorem sameForUser_disguised (isPrivate : KernelPrivate κ)
    (notUser : hidden &&& permUser ≠ permUser) : SameForUser κ (disguised κ hidden) where
  outside := rfl
  readable va := by
    have column : ptx va < 1024 := nptEntries_eq ▸ ptx_lt va
    exact readablePage_disguised (fun readable => pdx_of_private isPrivate readable)
      (pdx_lt va) column notUser
  bytes va readable := by
    rw [Kernel.loadByte, Kernel.loadByte, load_disguised_readable isPrivate hidden readable]

theorem loadByte_disguised_absent (unreadable : ¬UserReadable κ va) :
    (disguised κ 0).loadByte va = .error (.pageFault va) := by
  have entry : disguisedTable κ 0 (pdx va) (ptx va) = 0 := if_neg unreadable
  rw [Kernel.loadByte, load_disguised]
  simp only [entry]
  rw [if_pos not_present_zero]
  rfl

theorem loadByte_disguised_zeroed (unreadable : ¬UserReadable κ va) :
    (disguised κ (kernelEntry κ.cr3)).loadByte va = .ok 0 := by
  have entry : disguisedTable κ (kernelEntry κ.cr3) (pdx va) (ptx va) = kernelEntry κ.cr3 :=
    if_neg unreadable
  have frame : entryFrame (kernelEntry κ.cr3) = spareFrame κ.cr3 (firstTable + 1024) :=
    entryFrame_constructEntry (spareFrame_lt κ.cr3 (Nat.le_refl _)) (by decide)
  rw [Kernel.loadByte, load_disguised]
  simp only [entry]
  rw [if_neg (not_not.mpr (present_kernelEntry _)), frame, disguisedMemory_zero, ok_bind]
  change Except.ok ((0#32 >>> (8 * (va.toNat % 4))).setWidth 8) = _
  rw [BitVec.zero_ushiftRight]
  rfl

end Disguise

section Disclosure

variable {κ : Kernel} {s len : Word}

theorem Looked.earlier {text : Text} {precision : Word} {i n k : Nat}
    (looked : Looked text precision i n) (start : i ≤ k) (before : k ≤ n) :
    Looked text precision i k :=
  ⟨start, fun positive => Nat.le_trans before (looked.admitted positive),
    fun m from' below => looked.printed m from' (by omega)⟩

theorem Looked.congr {text text' : Text} {precision : Word} {i n : Nat}
    (looked : Looked text precision i n) (same : ∀ k < n, text' k = text k) :
    Looked text' precision i n := by
  refine ⟨looked.from_, looked.admitted, fun k start before => ?_⟩
  rw [same k before]
  exact looked.printed k start before

theorem exists_firstUnreadable (leak : ¬ReadsOnlyUser κ s len) :
    s ≠ 0 ∧ ∃ n < textFuel, Looked (textAt κ.loadByte s) len 0 n ∧
      ¬UserReadable κ (s + BitVec.ofNat 32 n) ∧
      ∀ k < n, UserReadable κ (s + BitVec.ofNat 32 k) := by
  rw [ReadsOnlyUser, not_or, not_forall] at leak
  obtain ⟨notNull, some⟩ := leak
  refine ⟨notNull, ?_⟩
  classical
  obtain ⟨looked, unreadable⟩ := Classical.not_imp.mp (Nat.find_spec some)
  have least : ∀ k < Nat.find some, UserReadable κ (s + BitVec.ofNat 32 k) := by
    intro k before
    exact not_not.mp fun not => Nat.find_min some before
      (Classical.not_imp.mpr ⟨looked.earlier (Nat.zero_le k) (Nat.le_of_lt before), not⟩)
  generalize Nat.find some = n at looked unreadable least
  refine ⟨n, ?_, looked, unreadable, least⟩
  by_contra around
  have wraps : BitVec.ofNat 32 n = BitVec.ofNat 32 (n - 2 ^ 32) := by
    have fuel : textFuel = 4294967296 := rfl
    apply BitVec.eq_of_toNat_eq
    rw [BitVec.toNat_ofNat, BitVec.toNat_ofNat]
    omega
  rw [wraps] at unreadable
  have fuel : textFuel = 4294967296 := rfl
  exact unreadable (least _ (by omega))

/-- A byte that is not for the user may be absent and may be the end of the string. -/
theorem readsOnlyUser_of_nonDisclosing (isPrivate : KernelPrivate κ)
    (nonDisclosing : NonDisclosing κ s len) : ReadsOnlyUser κ s len := by
  by_contra leak
  obtain ⟨notNull, n, inside, looked, unreadable, readable⟩ := exists_firstUnreadable leak
  have reaches : ∀ hidden, Looked (textAt (disguised κ hidden).loadByte s) len 0 n := by
    intro hidden
    apply looked.congr
    intro k before
    rw [textAt_of_ne notNull, textAt_of_ne notNull, Kernel.loadByte, Kernel.loadByte,
      load_disguised_readable isPrivate hidden (readable k before)]
  have notUser : (0 : Word) &&& permUser ≠ permUser := by decide
  have absent := nonDisclosing _ (sameForUser_disguised isPrivate notUser) 0 0 0
  have zeroed := nonDisclosing _
    (sameForUser_disguised isPrivate (user_kernelEntry κ.cr3)) 0 0 0
  have enough : n < 0 + textFuel := by omega
  have fault : cputsText (disguised κ 0).loadByte s len =
      .error (.pageFault (s + BitVec.ofNat 32 n)) := by
    have unread := (textAt_of_ne notNull n).trans (loadByte_disguised_absent unreadable)
    rw [cputsText_eq, putText_error (reaches 0) unread enough]
    rfl
  have ends : ∃ chars,
      cputsText (disguised κ (kernelEntry κ.cr3)).loadByte s len = .ok chars := by
    have nul := (textAt_of_ne notNull n).trans (loadByte_disguised_zeroed unreadable)
    obtain ⟨result, shown⟩ := putText_nul (reaches (kernelEntry κ.cr3)) nul enough
    rw [cputsText_eq, shown]
    exact ⟨_, rfl⟩
  obtain ⟨chars, printed⟩ := ends
  rw [callOutcome_cputs, fault] at absent
  rw [callOutcome_cputs, printed, ← absent] at zeroed
  exact nomatch zeroed

/-- A call that looks only at the user's bytes discloses nothing, and where the kernel keeps
its half to itself every other call does. -/
theorem cputs_nonDisclosing (κ : Kernel) (s len : Word) :
    (ReadsOnlyUser κ s len → NonDisclosing κ s len) ∧
      (KernelPrivate κ → (NonDisclosing κ s len ↔ ReadsOnlyUser κ s len)) :=
  ⟨nonDisclosing_of_readsOnlyUser, fun isPrivate =>
    ⟨readsOnlyUser_of_nonDisclosing isPrivate, nonDisclosing_of_readsOnlyUser⟩⟩

end Disclosure

def secretMemory (secret : Word) (frame index : Nat) : Word :=
  if frame = 256 then if index = 2 then 0x103007 else if index = 960 then 0x101003 else 0
  else if frame = 257 ∧ index = 0 then 0x102003
  else if frame = 258 ∧ index = 0 then secret
  else if frame = 259 ∧ index = 0 then 0x104007
  else if frame = 260 ∧ index = 0 then 0x48
  else 0

def secretKernel (secret : Word) : Kernel :=
  { loneEnvironment with
    memory := { loneEnvironment.memory with memory := secretMemory secret } }

theorem readablePage_secretKernel (secret : Word) (i j : Nat) :
    ReadablePage (secretKernel secret) i j ↔ i = 2 ∧ j = 0 := by
  have directory : (secretKernel secret).memory.memory (secretKernel secret).cr3 i =
      if i = 2 then 0x103007 else if i = 960 then 0x101003 else 0 := rfl
  rw [ReadablePage, directory]
  split_ifs with user kernel
  · have table : (secretKernel secret).memory.memory (entryFrame 0x103007) j =
        if j = 0 then 0x104007 else 0 := by
      have frame : entryFrame 0x103007 = 259 := by decide
      rw [frame]
      simp [secretKernel, secretMemory]
    rw [table]
    split_ifs with first
    · exact iff_of_true (by decide) ⟨user, first⟩
    · exact iff_of_false (by decide) fun both => first both.2
  · refine iff_of_false (fun readable => ?_) fun both => user both.1
    exact absurd readable.1.2 (by decide)
  · refine iff_of_false (fun readable => ?_) fun both => user both.1
    exact absurd readable.1.1 (by decide)

theorem kernelPrivate_secretKernel (secret : Word) : KernelPrivate (secretKernel secret) := by
  intro va readable
  have row := ((readablePage_secretKernel secret _ _).mp readable).1
  have limit : userLimit.toNat = 4018143232 := by decide
  rw [pdx_eq] at row
  rw [BitVec.lt_def, limit]
  omega

theorem readsOnlyUser_ownPage : ReadsOnlyUser (secretKernel 0x41) 0x800000 2 := by
  refine Or.inr fun n looked => ?_
  have short : n ≤ 1 := by
    by_contra longer
    obtain ⟨ch, read, some⟩ := looked.printed 1 (Nat.zero_le 1) (by omega)
    have nul : textAt (secretKernel 0x41).loadByte 0x800000 1 = .ok 0 := rfl
    rw [nul] at read
    exact some (Except.ok.inj read).symm
  apply (readablePage_secretKernel 0x41 _ _).mpr
  rcases Nat.le_one_iff_eq_zero_or_eq_one.mp short with rfl | rfl
  · decide
  · decide

theorem not_readsOnlyUser_secret : ¬ReadsOnlyUser (secretKernel 0x41) 0xF0000000 1 := by
  rintro (null | readable)
  · exact absurd null (by decide)
  · have first := readable 0 (.self _ _ 0)
    have place := (readablePage_secretKernel 0x41 _ _).mp first
    exact absurd place.1 (by decide)

/-- A user that prints its own page learns nothing about the secret, one that prints the page
of the kernel does. -/
theorem cputs_nonDisclosing_secretKernel :
    NonDisclosing (secretKernel 0x41) 0x800000 2 ∧
      ¬NonDisclosing (secretKernel 0x41) 0xF0000000 1 := by
  constructor
  · exact (cputs_nonDisclosing (secretKernel 0x41) 0x800000 2).1 readsOnlyUser_ownPage
  · intro nonDisclosing
    have exactly := (cputs_nonDisclosing (secretKernel 0x41) 0xF0000000 1).2
      (kernelPrivate_secretKernel 0x41)
    exact not_readsOnlyUser_secret (exactly.mp nonDisclosing)

/-- One character from `KERNEL_BASE` is printed, whatever it is. -/
theorem not_nonDisclosing_secret : ¬NonDisclosing (secretKernel 0x41) 0xF0000000 1 := by
  intro nonDisclosing
  have same : SameForUser (secretKernel 0x41) (secretKernel 0x42) := by
    refine ⟨rfl, fun va => ?_, fun va readable => ?_⟩
    · exact (readablePage_secretKernel 0x42 _ _).trans (readablePage_secretKernel 0x41 _ _).symm
    · have place := (readablePage_secretKernel 0x41 _ _).mp readable
      have readable' := (readablePage_secretKernel 0x42 _ _).mpr place
      rw [Kernel.loadByte, Kernel.loadByte, load_of_readable readable,
        load_of_readable readable', place.1, place.2]
      rfl
  have first : callOutcome (syscall (secretKernel 0x41) sysCputsNumber 0xF0000000 1 0 0 0) =
      .printed [0x41] := rfl
  have second : callOutcome (syscall (secretKernel 0x42) sysCputsNumber 0xF0000000 1 0 0 0) =
      .printed [0x42] := rfl
  have alike := nonDisclosing _ same 0 0 0
  rw [first, second] at alike
  exact nomatch alike

end FosV2
