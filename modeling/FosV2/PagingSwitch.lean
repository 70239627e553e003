import FosV2.BootUnmapped
import FosV2.Descriptors
import FosV2.Runs
import Mathlib.Tactic.IntervalCases

/-!
`turn_on_paging` of `kern/helpers.c`, one instruction at a time, with what the processor makes
of an address in between. A segment shifts virtual addresses to linear ones, page tables take
these to physical ones, and a translation may be remembered at any time once paging is on.
-/

namespace FosV2

open BitFields
open Runs
open TwoLevelTable

def pageWalk (σ : State) (cr3 page : Nat) : Option Nat :=
  let directoryEntry := σ.memory cr3 (page / 1024)
  if ¬present directoryEntry then none
  else
    let entry := σ.memory (entryFrame directoryEntry) (page % 1024)
    if ¬present entry then none else some (entryFrame entry)

structure Mmu where
  cs : Segment
  ds : Segment
  es : Segment
  fs : Segment
  gs : Segment
  ss : Segment
  gdt : List (List Field)
  cr3 : Nat
  pg : Bool
  state : State

/-- `mygdt` of `kern/entry.S`: all of memory, moved down by `KERNEL_BASE`. -/
def mygdt : List (List Field) :=
  [segNull.fields, asmSeg ((staX ||| staR).setWidth 32) (-kernelBase) 0xFFFFFFFF,
    asmSeg (staW.setWidth 32) (-kernelBase) 0xFFFFFFFF]

/-- `gdt` as it is initialized in `kern/helpers.c`. -/
def kernelGdt : List (List Field) :=
  [segNull.fields, (seg (staX ||| staR) 0 0xFFFFFFFF 0).fields, (seg staW 0 0xFFFFFFFF 0).fields,
    (seg (staX ||| staR) 0 0xFFFFFFFF 3).fields, (seg staW 0 0xFFFFFFFF 3).fields, segNull.fields]

def loadSegment (gdt : List (List Field)) (selector : BitVec 16) : Segment :=
  segmentOf (pack (gdt.getD (selector.toNat / 8) segNull.fields))

inductive PagingInstruction where
  | mapLow | lcr3 | lcr0 | lgdt | movGs | movFs | movEs | movDs | movSs | ljmp | lldt | unmapLow

def turnOnPagingCode : List PagingInstruction :=
  [.mapLow, .lcr3, .lcr0, .lgdt, .movGs, .movFs, .movEs, .movDs, .movSs, .ljmp, .lldt, .unmapLow,
    .lcr3]

/-- Loading `cr3` forgets the translations. -/
def Mmu.exec (pgdir : Nat) (m : Mmu) : PagingInstruction → Mmu
  | .mapLow =>
      { m with state := m.state.setWord pgdir 0 (m.state.memory pgdir (pdx kernelBase)) }
  | .lcr3 => { m with cr3 := pgdir, state := { m.state with tlb := [] } }
  | .lcr0 => { m with pg := true }
  | .lgdt => { m with gdt := kernelGdt }
  | .movGs => { m with gs := loadSegment m.gdt (gdUd ||| 3) }
  | .movFs => { m with fs := loadSegment m.gdt (gdUd ||| 3) }
  | .movEs => { m with es := loadSegment m.gdt 0x10 }
  | .movDs => { m with ds := loadSegment m.gdt 0x10 }
  | .movSs => { m with ss := loadSegment m.gdt 0x10 }
  | .ljmp => { m with cs := loadSegment m.gdt gdKt }
  | .lldt => m
  | .unmapLow => { m with state := m.state.setWord pgdir 0 0 }

/-- An address as the processor may take it: by the tables as they are, or as they were. -/
def Mmu.Translates (m : Mmu) (segment : Segment) (va pa : Word) : Prop :=
  let la := segment.base + va
  va ≤ segment.limit ∧
    if m.pg then ∃ frame, (pageWalk m.state m.cr3 (la.toNat / 4096) = some frame ∨
        (la.toNat / 4096, frame) ∈ m.state.tlb) ∧
      pa = BitVec.ofNat 32 (4096 * frame + la.toNat % 4096)
    else pa = la

structure Switching where
  mmu : Mmu
  rest : List PagingInstruction

inductive SwitchEvent where
  | exec
  | cache (page : Nat)

inductive SwitchStep (pgdir : Nat) : Switching → SwitchEvent → Switching → Prop
  | exec {m : Mmu} {instruction : PagingInstruction} {rest : List PagingInstruction} :
      SwitchStep pgdir ⟨m, instruction :: rest⟩ .exec ⟨m.exec pgdir instruction, rest⟩
  | cache {m : Mmu} {rest : List PagingInstruction} {page frame : Nat} : m.pg = true →
      page < 1048576 → pageWalk m.state m.cr3 page = some frame →
      SwitchStep pgdir ⟨m, rest⟩ (.cache page)
        ⟨{ m with state := { m.state with tlb := (page, frame) :: m.state.tlb } }, rest⟩

structure EntrySegments (m : Mmu) : Prop where
  off : m.pg = false
  cs : m.cs = loadSegment mygdt 0x8
  ds : m.ds = loadSegment mygdt 0x10
  es : m.es = loadSegment mygdt 0x10
  ss : m.ss = loadSegment mygdt 0x10

/-! What the directory says, with entry 0 as `turn_on_paging` has set it. -/

section Walk

variable {image : BootImage} {σ₀ σ σ' : State} {low : Word} {page : Nat}

theorem pageWalk_of_kernelEntry {cr3 table frame : Nat}
    (named : σ.memory cr3 (page / 1024) = bootTableEntry table) (small : table < 1048576)
    (maps : σ.memory table (page % 1024) = image.kernelRange.entry (983040 + frame))
    (fits : frame < 1048576) : pageWalk σ cr3 page = some frame := by
  have table' : entryFrame (bootTableEntry table) = table := entryFrame_bootTableEntry small
  have first : ¬¬present (bootTableEntry table) := not_not.mpr (present_bootTableEntry table)
  have second : ¬¬present (image.kernelRange.entry (983040 + frame)) :=
    not_not.mpr (present_constructEntry _ _)
  have target : image.kernelRange.physicalAddress +
      toPhysicalAddress (983040 + frame - image.kernelRange.firstPage) =
        toPhysicalAddress frame := by
    have offset : 983040 + frame - image.kernelRange.firstPage = frame := by
      change 983040 + frame - 983040 = frame
      omega
    rw [offset]
    exact BitVec.zero_add _
  have last : entryFrame (image.kernelRange.entry (983040 + frame)) = frame := by
    have aligned : image.kernelRange.physicalAddress.toNat % 4096 = 0 := rfl
    have small : image.kernelRange.perm.toNat < 4096 := by
      change permWriteable.toNat < 4096
      decide
    rw [entryFrame, BootRange.extractAddress_entry aligned small, target,
      ppn_toPhysicalAddress fits]
  simp only [pageWalk, named, first, if_false, table', maps, second, last]

theorem pageWalk_eq_none {cr3 : Nat} (absent : σ.memory cr3 (page / 1024) = 0) :
    pageWalk σ cr3 page = none := by
  simp only [pageWalk, absent, not_present_zero, not_false_eq_true, if_true]

section Space

variable (space : KernelSpace image σ₀ σ)
  (memory : σ'.memory = write σ.memory image.directory 0 low)
include space memory

theorem KernelSpace.pageWalk_kernel {frame : Nat} (inside : frame < 65536) :
    pageWalk σ' image.directory (983040 + frame) = some frame := by
  have bounds := image.directory_bounds
  obtain ⟨table, above, below, named, entries⟩ := space.kernelWindow ((983040 + frame) / 1024)
    (by omega) (by omega)
  change image.directory + 2 ≤ table at above
  change table < image.directory + 66 at below
  have maps := entries ((983040 + frame) % 1024) (Nat.mod_lt _ (by omega))
  rw [Nat.div_add_mod] at maps
  have directoryEntry : σ'.memory image.directory ((983040 + frame) / 1024) =
      bootTableEntry table := by
    rw [memory, write_apply, if_neg (by omega), named]
  have entry : σ'.memory table ((983040 + frame) % 1024) =
      image.kernelRange.entry (983040 + frame) := by
    rw [memory, write_apply, if_neg (by omega), maps]
  exact pageWalk_of_kernelEntry directoryEntry (by omega) entry (by omega)

theorem KernelSpace.pageWalk_low (borrowed : low = σ.memory image.directory 960)
    (below : page < 1024) : pageWalk σ' image.directory page = some page := by
  have bounds := image.directory_bounds
  obtain ⟨table, above, below', named, entries⟩ := space.kernelWindow 960 (by omega) (by omega)
  change image.directory + 2 ≤ table at above
  change table < image.directory + 66 at below'
  have maps := entries page below
  have directoryEntry : σ'.memory image.directory (page / 1024) = bootTableEntry table := by
    rw [memory, write_apply, if_pos (by omega), borrowed, named]
  have entry : σ'.memory table (page % 1024) = image.kernelRange.entry (983040 + page) := by
    rw [memory, write_apply, if_neg (by omega), Nat.mod_eq_of_lt below, maps]
  exact pageWalk_of_kernelEntry directoryEntry (by omega) entry (by omega)

theorem KernelSpace.pageWalk_user (below : page / 1024 < 955) (above : 1024 ≤ page ∨ low = 0) :
    pageWalk σ' image.directory page = none := by
  apply pageWalk_eq_none
  rw [memory, write_apply]
  by_cases zero : page / 1024 = 0
  · rw [if_pos ⟨rfl, zero⟩]
    exact above.resolve_left (by omega)
  · rw [if_neg (by omega)]
    exact space.user _ below

end Space

end Walk

/-! The switch after `n` of its instructions. -/

section Switch

def lowEntry (σ : State) (pgdir n : Nat) : Word :=
  if 1 ≤ n ∧ n < 12 then σ.memory pgdir 960 else 0

/-- What may be remembered: entry 0 is gone once the last flush is over. -/
def Remembered (n page frame : Nat) : Prop :=
  (page < 1024 → n < 13 ∧ frame = page) ∧ (1024 ≤ page → 955 ≤ page / 1024) ∧
    (983040 ≤ page → page = 983040 + frame)

def entryData : Segment := loadSegment mygdt 0x10
def entryCode : Segment := loadSegment mygdt 0x8
def kernelData : Segment := loadSegment kernelGdt 0x10
def kernelCode : Segment := loadSegment kernelGdt gdKt

structure Underway (image : BootImage) (σ : State) (n : Nat) (m : Mmu) : Prop where
  pg : m.pg = decide (3 ≤ n)
  cr3 : 2 ≤ n → m.cr3 = image.directory
  gdt : 4 ≤ n → m.gdt = kernelGdt
  memory : m.state.memory = write σ.memory image.directory 0 (lowEntry σ image.directory n)
  es : m.es = if n < 7 then entryData else kernelData
  ds : m.ds = if n < 8 then entryData else kernelData
  ss : m.ss = if n < 9 then entryData else kernelData
  cs : m.cs = if n < 10 then entryCode else kernelCode
  tlb : 2 ≤ n → ∀ page frame, (page, frame) ∈ m.state.tlb → Remembered n page frame

variable {image : BootImage} {σ₀ σ : State} {n : Nat} {m : Mmu}

theorem write_write (memory : Nat → Nat → Word) (table j : Nat) (first second : Word) :
    write (write memory table j first) table j second = write memory table j second := by
  funext query j'
  rw [write_apply, write_apply, write_apply]
  by_cases here : query = table ∧ j' = j
  · rw [if_pos here, if_pos here]
  · rw [if_neg here, if_neg here, if_neg here]

theorem Remembered.mono {page frame : Nat} (remembered : Remembered n page frame) (more : n < 12) :
    Remembered (n + 1) page frame :=
  ⟨fun low => ⟨by omega, (remembered.1 low).2⟩, remembered.2⟩

theorem Underway.exec (underway : Underway image σ n m)
    {instruction : PagingInstruction} (code : turnOnPagingCode[n]? = some instruction) :
    Underway image σ (n + 1) (m.exec image.directory instruction) := by
  obtain ⟨pg, cr3, gdt, memory, es, ds, ss, cs, tlb⟩ := underway
  have bounds := image.directory_bounds
  have inside : n < 13 := (List.getElem?_eq_some_iff.mp code).1
  have window : pdx kernelBase = 960 := by decide
  constructor
  · interval_cases n <;> cases code <;> simp [Mmu.exec, pg]
  · interval_cases n <;> cases code <;> simp_all [Mmu.exec]
  · interval_cases n <;> cases code <;> simp_all [Mmu.exec]
  · by_cases borrows : n = 0
    · subst borrows
      cases code
      change write m.state.memory image.directory 0 (m.state.memory image.directory _) = _
      rw [memory, write_write, write_apply, window, if_neg (by omega)]
      rfl
    · by_cases returns : n = 11
      · subst returns
        cases code
        change write m.state.memory image.directory 0 0 = _
        rw [memory, write_write]
        rfl
      · have kept : (m.exec image.directory instruction).state.memory = m.state.memory := by
          interval_cases n <;> cases code <;> simp_all [Mmu.exec]
        have same : lowEntry σ image.directory (n + 1) = lowEntry σ image.directory n := by
          simp only [lowEntry]
          congr 1
          simp only [eq_iff_iff]
          omega
        rw [kept, memory, same]
  · interval_cases n <;> cases code <;> simp_all [Mmu.exec, kernelData]
  · interval_cases n <;> cases code <;> simp_all [Mmu.exec, kernelData]
  · interval_cases n <;> cases code <;> simp_all [Mmu.exec, kernelData]
  · interval_cases n <;> cases code <;> simp_all [Mmu.exec, kernelCode]
  · intro loaded page frame member
    by_cases flushes : n = 1 ∨ n = 12
    · have empty : (m.exec image.directory instruction).state.tlb = [] := by
        rcases flushes with first | last
        · subst first
          cases code
          rfl
        · subst last
          cases code
          rfl
      rw [empty] at member
      cases member
    · have kept : (m.exec image.directory instruction).state.tlb = m.state.tlb := by
        interval_cases n <;> cases code <;> simp_all [Mmu.exec, State.setWord]
      rw [kept] at member
      exact (tlb (by omega) page frame member).mono (by omega)

theorem Underway.walk (space : KernelSpace image σ₀ σ) (underway : Underway image σ n m)
    {page frame : Nat} (inside : page < 1048576)
    (walk : pageWalk m.state image.directory page = some frame) : Remembered n page frame := by
  refine ⟨?_, ?_, ?_⟩
  · intro below
    by_cases borrowed : 1 ≤ n ∧ n < 12
    · rw [space.pageWalk_low underway.memory (if_pos borrowed) below] at walk
      cases walk
      exact ⟨by omega, rfl⟩
    · rw [space.pageWalk_user underway.memory (by omega) (Or.inr (if_neg borrowed))] at walk
      cases walk
  · intro above
    by_contra user
    rw [space.pageWalk_user underway.memory (by omega) (Or.inl above)] at walk
    cases walk
  · intro kernel
    obtain ⟨offset, rfl⟩ := Nat.exists_eq_add_of_le kernel
    rw [space.pageWalk_kernel underway.memory (by omega)] at walk
    cases walk
    rfl

theorem Underway.cache (space : KernelSpace image σ₀ σ) (underway : Underway image σ n m)
    {page frame : Nat} (inside : page < 1048576)
    (walk : pageWalk m.state m.cr3 page = some frame) :
    Underway image σ n { m with state := { m.state with tlb := (page, frame) :: m.state.tlb } } := by
  obtain ⟨pg, cr3, gdt, memory, es, ds, ss, cs, tlb⟩ := underway
  refine ⟨pg, cr3, gdt, memory, es, ds, ss, cs, ?_⟩
  intro loaded page' frame' member
  rcases List.mem_cons.mp member with new | old
  · cases new
    rw [cr3 loaded] at walk
    exact Underway.walk space ⟨pg, cr3, gdt, memory, es, ds, ss, cs, tlb⟩ inside walk
  · exact tlb loaded page' frame' old

def SwitchInvariant (image : BootImage) (σ : State) (s : Switching) : Prop :=
  ∃ n, n ≤ 13 ∧ s.rest = turnOnPagingCode.drop n ∧ Underway image σ n s.mmu

theorem SwitchInvariant.step (space : KernelSpace image σ₀ σ) {s s' : Switching}
    {event : SwitchEvent} (invariant : SwitchInvariant image σ s)
    (taken : SwitchStep image.directory s event s') : SwitchInvariant image σ s' := by
  obtain ⟨n, few, rest, underway⟩ := invariant
  cases taken with
  | @exec m instruction rest' =>
      change instruction :: rest' = turnOnPagingCode.drop n at rest
      have inside : n < 13 := by
        by_contra beyond
        have done : n = 13 := by omega
        subst done
        cases rest
      have split : turnOnPagingCode.drop n = turnOnPagingCode[n] :: turnOnPagingCode.drop (n + 1) :=
        List.drop_eq_getElem_cons inside
      rw [split] at rest
      cases rest
      exact ⟨n + 1, inside, rfl, underway.exec (List.getElem?_eq_getElem inside)⟩
  | cache _ inside walk => exact ⟨n, few, rest, underway.cache space inside walk⟩

end Switch

/-! Which addresses reach the first 4 MB, or the 256 MB of the kernel's window. -/

section Translation

theorem entryData_spans : entryData.base = -kernelBase ∧ entryData.limit = 0xFFFFFFFF := by
  have table : entryData = segmentOf (pack (asmSeg (staW.setWidth 32) (-kernelBase) 0xFFFFFFFF)) :=
    rfl
  rw [table, pack_asmSeg, segmentOf_seg]
  exact ⟨rfl, by decide⟩

theorem entryCode_spans : entryCode.base = -kernelBase ∧ entryCode.limit = 0xFFFFFFFF := by
  have table : entryCode =
      segmentOf (pack (asmSeg ((staX ||| staR).setWidth 32) (-kernelBase) 0xFFFFFFFF)) := rfl
  rw [table, pack_asmSeg, segmentOf_seg]
  exact ⟨rfl, by decide⟩

theorem kernelData_spans : kernelData.base = 0 ∧ kernelData.limit = 0xFFFFFFFF := by
  have table : kernelData = segmentOf (pack (seg staW 0 0xFFFFFFFF 0).fields) := rfl
  rw [table, segmentOf_seg]
  exact ⟨rfl, by decide⟩

theorem kernelCode_spans : kernelCode.base = 0 ∧ kernelCode.limit = 0xFFFFFFFF := by
  have table : kernelCode = segmentOf (pack (seg (staX ||| staR) 0 0xFFFFFFFF 0).fields) := rfl
  rw [table, segmentOf_seg]
  exact ⟨rfl, by decide⟩

def Spans (n : Nat) (segment : Segment) : Prop :=
  segment.limit = 0xFFFFFFFF ∧
    (n < 10 ∧ segment.base = -kernelBase ∨ 7 ≤ n ∧ segment.base = 0)

variable {image : BootImage} {σ₀ σ : State} {n : Nat} {m : Mmu} {segment : Segment}

theorem Underway.spans (underway : Underway image σ n m)
    (inUse : segment ∈ [m.cs, m.ds, m.es, m.ss]) : Spans n segment := by
  have either : ∀ (k : Nat) (before after : Segment), 7 ≤ k → k ≤ 10 →
      before.base = -kernelBase ∧ before.limit = 0xFFFFFFFF →
      after.base = 0 ∧ after.limit = 0xFFFFFFFF → Spans n (if n < k then before else after) := by
    intro k before after late early old new
    by_cases reloaded : n < k
    · rw [if_pos reloaded]
      exact ⟨old.2, Or.inl ⟨by omega, old.1⟩⟩
    · rw [if_neg reloaded]
      exact ⟨new.2, Or.inr ⟨by omega, new.1⟩⟩
  simp only [List.mem_cons, List.not_mem_nil, or_false] at inUse
  rcases inUse with rfl | rfl | rfl | rfl
  · rw [underway.cs]
    exact either 10 _ _ (by omega) (by omega) entryCode_spans kernelCode_spans
  · rw [underway.ds]
    exact either 8 _ _ (by omega) (by omega) entryData_spans kernelData_spans
  · rw [underway.es]
    exact either 7 _ _ (by omega) (by omega) entryData_spans kernelData_spans
  · rw [underway.ss]
    exact either 9 _ _ (by omega) (by omega) entryData_spans kernelData_spans

theorem le_limit (whole : segment.limit = 0xFFFFFFFF) (va : Word) : va ≤ segment.limit := by
  rw [whole, BitVec.le_def]
  exact Nat.le_of_lt_succ va.isLt

/-- Where the walk finds a frame and nothing else is remembered, that is the translation. -/
theorem Mmu.translates_iff {va pa : Word} {page frame : Nat} (whole : segment.limit = 0xFFFFFFFF)
    (on : m.pg = true) (here : (segment.base + va).toNat / 4096 = page)
    (walk : pageWalk m.state m.cr3 page = some frame)
    (remembered : ∀ frame', (page, frame') ∈ m.state.tlb → frame' = frame) :
    m.Translates segment va pa ↔
      pa = BitVec.ofNat 32 (4096 * frame + (segment.base + va).toNat % 4096) := by
  simp only [Mmu.Translates, on, if_true, here, walk]
  constructor
  · rintro ⟨_, frame', found, rfl⟩
    have same : frame' = frame := by
      rcases found with walked | member
      · exact (Option.some.inj walked).symm
      · exact remembered frame' member
    rw [same]
  · intro exactly
    exact ⟨le_limit whole va, frame, Or.inl rfl, exactly⟩

theorem Mmu.not_translates {va pa : Word} {page : Nat} (on : m.pg = true)
    (here : (segment.base + va).toNat / 4096 = page) (walk : pageWalk m.state m.cr3 page = none)
    (forgotten : ∀ frame, (page, frame) ∉ m.state.tlb) : ¬m.Translates segment va pa := by
  simp only [Mmu.Translates, on, if_true, here, walk]
  rintro ⟨_, frame, found, _⟩
  rcases found with walked | member
  · cases walked
  · exact forgotten frame member

theorem linear_moved (base : segment.base = -kernelBase) (x : Word) :
    segment.base + (kernelBase + x) = x := by
  rw [base, ← BitVec.add_assoc, BitVec.add_comm (-kernelBase) kernelBase, BitVec.add_right_neg,
    BitVec.zero_add]

theorem linear_kept (base : segment.base = 0) (va : Word) : segment.base + va = va := by
  rw [base]
  exact BitVec.zero_add va

theorem kernelAddress_toNat {x : Word} (fits : x.toNat < 268435456) :
    (kernelBase + x).toNat = 4026531840 + x.toNat := by
  have base : kernelBase.toNat = 4026531840 := rfl
  rw [BitVec.toNat_add, base]
  omega

theorem ofNat_page (x : Word) : BitVec.ofNat 32 (4096 * (x.toNat / 4096) + x.toNat % 4096) = x := by
  apply BitVec.eq_of_toNat_eq
  rw [Nat.div_add_mod, BitVec.toNat_ofNat]
  exact Nat.mod_eq_of_lt x.isLt

/-- Whatever base the segment has, the kernel finds its first 4 MB; with the new one, 256 MB. -/
theorem Underway.translates_kernel (space : KernelSpace image σ₀ σ)
    (underway : Underway image σ n m) (spans : Spans n segment) {x pa : Word}
    (fits : x.toNat < 4194304 ∨ 10 ≤ n ∧ x.toNat < 268435456) :
    m.Translates segment (kernelBase + x) pa ↔ pa = x := by
  obtain ⟨whole, ⟨early, base⟩ | ⟨late, base⟩⟩ := spans
  · have small : x.toNat < 4194304 := fits.resolve_right (by omega)
    have linear := linear_moved base x
    by_cases off : n < 3
    · have isOff : m.pg = false := by rw [underway.pg]; exact decide_eq_false (by omega)
      simp only [Mmu.Translates, linear, isOff, Bool.false_eq_true, if_false,
        le_limit whole, true_and]
    · have on : m.pg = true := by rw [underway.pg]; exact decide_eq_true (by omega)
      have borrowed : lowEntry σ image.directory n = σ.memory image.directory 960 :=
        if_pos (by omega)
      have walk : pageWalk m.state image.directory (x.toNat / 4096) = some (x.toNat / 4096) :=
        space.pageWalk_low underway.memory borrowed (by omega)
      rw [← underway.cr3 (by omega)] at walk
      have remembered : ∀ frame', (x.toNat / 4096, frame') ∈ m.state.tlb →
          frame' = x.toNat / 4096 := fun frame' member =>
        ((underway.tlb (by omega) _ _ member).1 (by omega)).2
      rw [Mmu.translates_iff whole on (by rw [linear]) walk remembered, linear, ofNat_page]
  · have on : m.pg = true := by rw [underway.pg]; exact decide_eq_true (by omega)
    have inside : x.toNat < 268435456 := by omega
    have address := kernelAddress_toNat inside
    have linear := linear_kept base (kernelBase + x)
    have page : (kernelBase + x).toNat / 4096 = 983040 + x.toNat / 4096 := by omega
    have walk : pageWalk m.state image.directory (983040 + x.toNat / 4096) =
        some (x.toNat / 4096) := space.pageWalk_kernel underway.memory (by omega)
    rw [← underway.cr3 (by omega)] at walk
    have remembered : ∀ frame', (983040 + x.toNat / 4096, frame') ∈ m.state.tlb →
        frame' = x.toNat / 4096 := by
      intro frame' member
      have kept := (underway.tlb (by omega) _ _ member).2.2 (by omega)
      omega
    have offset : (kernelBase + x).toNat % 4096 = x.toNat % 4096 := by omega
    rw [Mmu.translates_iff whole on (by rw [linear, page]) walk remembered, linear, offset,
      ofNat_page]

/-- Until a segment is reloaded nothing beyond 4 MB can be reached through it. -/
theorem Underway.not_translates_beyond (space : KernelSpace image σ₀ σ)
    (underway : Underway image σ n m) (base : segment.base = -kernelBase) (on : m.pg = true)
    {x pa : Word} (beyond : 4194304 ≤ x.toNat) (below : x.toNat / 4194304 < 955) :
    ¬m.Translates segment (kernelBase + x) pa := by
  have linear := linear_moved base x
  have started : 3 ≤ n := by
    rw [underway.pg] at on
    exact of_decide_eq_true on
  have walk : pageWalk m.state image.directory (x.toNat / 4096) = none :=
    space.pageWalk_user underway.memory (by omega) (Or.inl (by omega))
  rw [← underway.cr3 (by omega)] at walk
  refine Mmu.not_translates on (by rw [linear]) walk ?_
  intro frame member
  have kept := (underway.tlb (by omega) _ _ member).2.1 (by omega)
  omega

/-- At the end nothing is left below the arrays that user programs may read. -/
theorem Underway.not_translates_user (space : KernelSpace image σ₀ σ)
    (underway : Underway image σ 13 m) (spans : Spans 13 segment) {va pa : Word}
    (user : pdx va < 955) : ¬m.Translates segment va pa := by
  obtain ⟨_, ⟨early, _⟩ | ⟨_, base⟩⟩ := spans
  · omega
  have on : m.pg = true := underway.pg
  have linear := linear_kept base va
  rw [pdx_eq] at user
  have walk : pageWalk m.state image.directory (va.toNat / 4096) = none :=
    space.pageWalk_user underway.memory (by omega) (Or.inr rfl)
  rw [← underway.cr3 (by omega)] at walk
  refine Mmu.not_translates on (by rw [linear]) walk ?_
  intro frame member
  obtain ⟨low, high, _⟩ := underway.tlb (by omega) _ _ member
  by_cases first : va.toNat / 4096 < 1024
  · exact absurd (low first).1 (by omega)
  · have window := high (by omega)
    omega

end Translation

section Whole

/-- Neither the order of the reloads nor what the processor remembers, and when, breaks the
kernel's view of its own 4 MB; once over, its view is that of the tables and nothing more. -/
theorem switch_keepsKernel {image : BootImage} {σ₀ : State} {vm : KernelVM}
    (unused : σ₀.ptrFreeMem = 0) (limit : σ₀.numberOfFrames ≤ 16639)
    (mapped : mapKernelSpace image σ₀ = .ok vm) {m : Mmu} (entry : EntrySegments m)
    (state : m.state = vm.state) {s : Switching}
    (reachable : Reachable (SwitchStep vm.ptrPageDirectory) ⟨m, turnOnPagingCode⟩ s) :
    ∀ segment ∈ [s.mmu.cs, s.mmu.ds, s.mmu.es, s.mmu.ss], ∀ x pa : Word,
      (x.toNat < 4194304 → (s.mmu.Translates segment (kernelBase + x) pa ↔ pa = x)) ∧
      (s.mmu.pg = true → segment.base = -kernelBase → 4194304 ≤ x.toNat → pdx x < 955 →
        ¬s.mmu.Translates segment (kernelBase + x) pa) ∧
      (s.rest = [] → s.mmu.state.memory = vm.state.memory ∧
        (x.toNat < 268435456 → (s.mmu.Translates segment (kernelBase + x) pa ↔ pa = x)) ∧
        (pdx x < 955 → ¬s.mmu.Translates segment x pa)) := by
  rcases mapKernelSpace_cases image unused limit with
    ⟨vm', returned, pgdir, _, space⟩ | ⟨⟨stop, failed⟩, _⟩
  case inr =>
    rw [mapped] at failed
    cases failed
  rw [mapped] at returned
  cases returned
  rw [pgdir] at reachable
  have absent := space.user 0 (by omega)
  have untouched : write vm.state.memory image.directory 0 0 = vm.state.memory := by
    funext frame j
    rw [write_apply]
    by_cases here : frame = image.directory ∧ j = 0
    · rw [if_pos here, here.1, here.2, absent]
    · rw [if_neg here]
  have start : SwitchInvariant image vm.state ⟨m, turnOnPagingCode⟩ := by
    refine ⟨0, by omega, rfl, ?_⟩
    have memory : m.state.memory =
        write vm.state.memory image.directory 0 (lowEntry vm.state image.directory 0) := by
      rw [state]
      exact untouched.symm
    constructor
    · exact entry.off
    · intro later
      omega
    · intro later
      omega
    · exact memory
    · exact entry.es
    · exact entry.ds
    · exact entry.ss
    · exact entry.cs
    · intro later
      omega
  obtain ⟨n, few, rest, underway⟩ :=
    reachable.preserves (fun _ _ _ invariant taken => invariant.step space taken) start
  intro segment inUse x pa
  have spans := underway.spans inUse
  refine ⟨?_, ?_, ?_⟩
  · exact fun small => underway.translates_kernel space spans (Or.inl small)
  · intro on base beyond below
    rw [pdx_eq] at below
    exact underway.not_translates_beyond space base on beyond (by omega)
  · intro done
    have last : n = 13 := by
      rw [done] at rest
      have none : 13 ≤ n := List.drop_eq_nil_iff.mp rest.symm
      omega
    subst last
    refine ⟨?_, ?_, ?_⟩
    · rw [underway.memory]
      exact untouched
    · exact fun small => underway.translates_kernel space spans (Or.inr ⟨by omega, small⟩)
    · exact fun user => underway.not_translates_user space spans user

theorem run_exec (pgdir : Nat) (m : Mmu) (code : List PagingInstruction) :
    Run (SwitchStep pgdir) ⟨m, code⟩ (List.replicate code.length .exec)
      ⟨code.foldl (Mmu.exec pgdir) m, []⟩ := by
  induction code generalizing m with
  | nil => exact Run.nil _
  | cons instruction code ih => exact Run.cons SwitchStep.exec (ih (m.exec pgdir instruction))

def enteredKernel (σ : State) : Mmu :=
  ⟨entryCode, entryData, entryData, segmentOf 0, segmentOf 0, entryData, mygdt, 0, false, σ⟩

/-- With 4 MB of memory the kernel's code goes on at `0xF0100000`. -/
theorem switch_keepsKernel_fourMegabytes :
    ∃ vm m, mapKernelSpace exampleImage (fourMegabytes 0) = .ok vm ∧
      m = turnOnPagingCode.foldl (Mmu.exec vm.ptrPageDirectory) (enteredKernel vm.state) ∧
      m.Translates m.cs 0xF0100000 0x100000 ∧ ∀ pa, ¬m.Translates m.cs 0x100000 pa := by
  have limit : (fourMegabytes 0).numberOfFrames ≤ 16639 := by decide
  rcases mapKernelSpace_cases exampleImage rfl limit with ⟨vm, returned, _⟩ | ⟨_, short⟩
  case inr => exact absurd short (by decide)
  have entry : EntrySegments (enteredKernel vm.state) := ⟨rfl, rfl, rfl, rfl, rfl⟩
  have reachable : Reachable (SwitchStep vm.ptrPageDirectory)
      ⟨enteredKernel vm.state, turnOnPagingCode⟩ _ :=
    ⟨_, run_exec vm.ptrPageDirectory (enteredKernel vm.state) turnOnPagingCode⟩
  have kept := switch_keepsKernel rfl (by decide) returned entry rfl reachable _
    (List.mem_cons_self ..) 0x100000
  refine ⟨vm, _, returned, rfl, ?_, ?_⟩
  · exact (((kept 0x100000).2.2 rfl).2.1 (by decide)).mpr rfl
  · exact fun pa => ((kept pa).2.2 rfl).2.2 (by decide)

end Whole

end FosV2
