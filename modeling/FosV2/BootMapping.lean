import FosV2.BootHandover
import FosV2.WhileLoop
import Mathlib.Data.Finset.Card
import Mathlib.Data.Finset.Image

/-!
Mapping kernel space before paging is on: `boot_get_page_table` and `boot_map_range` of
`kern/memory_manager.c`. Page tables come from `boot_allocate_space` the first time a range
touches their 4 MB window, and nothing clears them.
-/

namespace FosV2

open TwoLevelTable

def bootGetPageTable (endOfKernel : Word) (σ : State) (pgdir : Nat) (va : Word) (create : Bool) :
    Except Stop (Option Nat × State) := do
  let physPageTable := extractAddress (σ.memory pgdir (pdx va))
  let table ← kVirtualAddress σ physPageTable
  if physPageTable = 0 then
    if create then
      let (ptr, σ) := bootAllocateSpace endOfKernel σ pageSize pageSize
      let physPageTable ← kPhysicalAddress ptr
      let entry := constructEntry physPageTable (permPresent ||| permWriteable)
      return (some (ppn physPageTable), σ.setWord pgdir (pdx va) entry)
    else return (none, σ)
  else return (some table, σ)

structure MapLoop where
  i : Word
  virtualAddress : Word
  physicalAddress : Word
  state : State

def bootMapTurn (endOfKernel : Word) (pgdir : Nat) (perm : Word) (loop : MapLoop) :
    Except Stop MapLoop := do
  let (table, σ) ← bootGetPageTable endOfKernel loop.state pgdir loop.virtualAddress true
  match table with
  | none => throw .nullPointer
  | some table =>
      let entry := constructEntry loop.physicalAddress (perm ||| permPresent)
      return {
        i := loop.i + pageSize
        virtualAddress := loop.virtualAddress + pageSize
        physicalAddress := loop.physicalAddress + pageSize
        state := σ.setWord table (ptx loop.virtualAddress) entry }

/-- A multiple of `PAGE_SIZE` has one of `2 ^ 20` values: a loop that makes more turns has
come back to a value of `i` it had before, and is endless. -/
def pageLoopFuel : Nat := 2 ^ 20 + 1

def bootMapRange (endOfKernel : Word) (σ : State) (pgdir : Nat)
    (virtualAddress size physicalAddress perm : Word) : Except Stop State := do
  let loop ← WhileLoop.run (fun loop : MapLoop => loop.i < size)
    (bootMapTurn endOfKernel pgdir perm) .endlessLoop pageLoopFuel
    ⟨0, virtualAddress, roundUp physicalAddress pageSize, σ⟩
  return loop.state

/-! `boot_allocate_space` by frames. -/

def NextFrame (kernel : KernelImage) (σ : State) (frame : Nat) : Prop :=
  (roundUp (if σ.ptrFreeMem = 0 then kernel.endOfKernel else σ.ptrFreeMem) pageSize).toNat =
    4026531840 + 4096 * frame

theorem NextFrame.congr {kernel : KernelImage} {σ σ' : State} {frame : Nat}
    (next : NextFrame kernel σ frame) (same : σ'.ptrFreeMem = σ.ptrFreeMem) :
    NextFrame kernel σ' frame := by
  unfold NextFrame
  rw [same]
  exact next

theorem toPhysicalAddress_eq (frame : Nat) :
    toPhysicalAddress frame = BitVec.ofNat 32 (4096 * frame) := by
  apply BitVec.eq_of_toNat_eq
  rw [toPhysicalAddress, BitVec.toNat_shiftLeft, BitVec.toNat_ofNat, BitVec.toNat_ofNat,
    Nat.shiftLeft_eq]
  omega

theorem toPhysicalAddress_add (frame more : Nat) :
    toPhysicalAddress (frame + more) = toPhysicalAddress frame + toPhysicalAddress more := by
  simp only [toPhysicalAddress_eq, Nat.mul_add, BitVec.ofNat_add]

theorem toPhysicalAddress_zero : toPhysicalAddress 0 = 0 := by decide

theorem toPhysicalAddress_one : toPhysicalAddress 1 = pageSize := by decide

theorem NextFrame.kPhysicalAddress {kernel : KernelImage} {σ : State} {frame : Nat}
    (next : NextFrame kernel σ frame) (size align : Word) :
    kPhysicalAddress (bootAllocateSpace kernel.endOfKernel σ size align).1 =
      .ok (toPhysicalAddress frame) := by
  have ptr : (bootAllocateSpace kernel.endOfKernel σ size align).1.toNat =
    4026531840 + 4096 * frame := next
  have base : kernelBase.toNat = 4026531840 := by decide
  have wide := (bootAllocateSpace kernel.endOfKernel σ size align).1.isLt
  rw [kPhysicalAddress_of_le (by rw [BitVec.le_def, ptr, base]; omega)]
  refine congrArg Except.ok (BitVec.eq_of_toNat_eq ?_)
  rw [BitVec.toNat_sub, ptr, base, toPhysicalAddress_toNat (by omega)]
  omega

theorem NextFrame.allocate {kernel : KernelImage} {σ : State} {frame : Nat}
    (next : NextFrame kernel σ frame) {size : Word} (align : Word) {pages : Nat}
    (covers : (size.toNat + 4095) / 4096 = pages) (room : frame + pages < 65536) :
    NextFrame kernel (bootAllocateSpace kernel.endOfKernel σ size align).2 (frame + pages) := by
  have ptr : (bootAllocateSpace kernel.endOfKernel σ size align).1.toNat =
    4026531840 + 4096 * frame := next
  have moved : (bootAllocateSpace kernel.endOfKernel σ size align).2.ptrFreeMem.toNat =
      4026531840 + 4096 * frame + size.toNat := by
    change ((bootAllocateSpace kernel.endOfKernel σ size align).1 + size).toNat = _
    rw [BitVec.toNat_add, ptr]
    omega
  have nonzero : (bootAllocateSpace kernel.endOfKernel σ size align).2.ptrFreeMem ≠ 0 := by
    intro zero
    rw [zero] at moved
    have none : (0 : Word).toNat = 0 := rfl
    omega
  rw [NextFrame, if_neg nonzero, roundUp_toNat, moved]
  omega

/-! What a range has written after some of its pages. -/

def bootTableEntry (table : Nat) : Word :=
  constructEntry (toPhysicalAddress table) (permPresent ||| permWriteable)

structure BootRange where
  pgdir : Nat
  firstPage : Nat
  physicalAddress : Word
  perm : Word

namespace BootRange

def window (range : BootRange) (k : Nat) : Nat := (range.firstPage + k) / 1024

def Contains (range : BootRange) (count page : Nat) : Prop :=
  range.firstPage ≤ page ∧ page < range.firstPage + count

instance (range : BootRange) (count page : Nat) : Decidable (range.Contains count page) :=
  inferInstanceAs (Decidable (_ ∧ _))

def entry (range : BootRange) (page : Nat) : Word :=
  constructEntry (range.physicalAddress + toPhysicalAddress (page - range.firstPage))
    (range.perm ||| permPresent)

def newWindows (range : BootRange) (σ : State) (count : Nat) : Finset Nat :=
  ((Finset.range count).image range.window).filter fun w => σ.memory range.pgdir w = 0

def nextAfter (range : BootRange) (σ : State) (start count : Nat) : Nat :=
  start + (range.newWindows σ count).card

end BootRange

structure OwnTables (inside : Nat → Prop) (pgdir next : Nat) (σ : State) : Prop where
  table : ∀ w, inside w → ∀ table, pageTable σ pgdir w = some table →
    0 < table ∧ table < next ∧ table ≠ pgdir
  distinct : Distinct inside (pageTable σ pgdir)

structure RangeMapped (kernel : KernelImage) (inside : Nat → Prop) (range : BootRange) (start : Nat)
    (σ₀ : State) (count : Nat) (σ : State) : Prop where
  next : NextFrame kernel σ (range.nextAfter σ₀ start count)
  sameFrames : σ.numberOfFrames = σ₀.numberOfFrames
  own : OwnTables inside range.pgdir (range.nextAfter σ₀ start count) σ
  old : ∀ w, w ∉ range.newWindows σ₀ count → σ.memory range.pgdir w = σ₀.memory range.pgdir w
  made : ∀ w ∈ range.newWindows σ₀ count, ∃ table, start ≤ table ∧
    table < range.nextAfter σ₀ start count ∧ σ.memory range.pgdir w = bootTableEntry table
  pages : ∀ w, inside w → ∀ table, pageTable σ range.pgdir w = some table → ∀ j < 1024,
    σ.memory table j = if range.Contains count (1024 * w + j) then range.entry (1024 * w + j)
      else σ₀.memory table j
  others : ∀ frame, frame ≠ range.pgdir →
    (∀ w, inside w → pageTable σ range.pgdir w ≠ some frame) →
      σ.memory frame = σ₀.memory frame
  -- A table that was looked up again after it was made.
  checked : ∀ k, k + 1 < count → range.window k = range.window (k + 1) → ∀ table,
    pageTable σ range.pgdir (range.window k) = some table → table < σ₀.numberOfFrames

theorem bootTableEntry_ne_zero (table : Nat) : bootTableEntry table ≠ 0 := by
  have bits : permPresent ||| permWriteable = permWriteable ||| permPresent := by decide
  rw [bootTableEntry, bits]
  exact ne_zero_of_present (present_constructEntry _ _)

theorem pageTable_of_bootTableEntry {σ : State} {pgdir w table : Nat} (fits : table < 1048576)
    (entry : σ.memory pgdir w = bootTableEntry table) : pageTable σ pgdir w = some table := by
  rw [pageTable, entry, entryTarget_of_ne (bootTableEntry_ne_zero table), bootTableEntry,
    entryFrame_constructEntry fits (by decide)]

section Windows

variable {range : BootRange} {σ : State} {count : Nat}

theorem BootRange.mem_newWindows {w : Nat} : w ∈ range.newWindows σ count ↔
    (∃ k < count, range.window k = w) ∧ σ.memory range.pgdir w = 0 := by
  simp only [BootRange.newWindows, Finset.mem_filter, Finset.mem_image, Finset.mem_range]

theorem BootRange.newWindows_zero : range.newWindows σ 0 = ∅ := rfl

theorem BootRange.newWindows_succ_old (known : σ.memory range.pgdir (range.window count) ≠ 0 ∨
    range.window count ∈ range.newWindows σ count) :
    range.newWindows σ (count + 1) = range.newWindows σ count := by
  ext w
  rw [BootRange.mem_newWindows, BootRange.mem_newWindows]
  constructor
  · rintro ⟨⟨k, bound, rfl⟩, absent⟩
    rcases Nat.lt_succ_iff_lt_or_eq.mp bound with earlier | rfl
    · exact ⟨⟨k, earlier, rfl⟩, absent⟩
    · rcases known with present | member
      · exact absurd absent present
      · exact BootRange.mem_newWindows.mp member
  · rintro ⟨⟨k, bound, rfl⟩, absent⟩
    exact ⟨⟨k, Nat.lt_succ_of_lt bound, rfl⟩, absent⟩

theorem BootRange.newWindows_succ_new (absent : σ.memory range.pgdir (range.window count) = 0) :
    range.newWindows σ (count + 1) = insert (range.window count) (range.newWindows σ count) := by
  ext w
  rw [Finset.mem_insert, BootRange.mem_newWindows, BootRange.mem_newWindows]
  constructor
  · rintro ⟨⟨k, bound, rfl⟩, vacant⟩
    rcases Nat.lt_succ_iff_lt_or_eq.mp bound with earlier | rfl
    · exact Or.inr ⟨⟨k, earlier, rfl⟩, vacant⟩
    · exact Or.inl rfl
  · rintro (rfl | ⟨⟨k, bound, rfl⟩, vacant⟩)
    · exact ⟨⟨count, Nat.lt_succ_self count, rfl⟩, absent⟩
    · exact ⟨⟨k, Nat.lt_succ_of_lt bound, rfl⟩, vacant⟩

end Windows

section Turn

variable {kernel : KernelImage} {inside : Nat → Prop} {range : BootRange} {start count : Nat}
  {σ₀ σ : State}

def BootRange.slot (range : BootRange) (count : Nat) : Nat := (range.firstPage + count) % 1024

theorem BootRange.page_eq (range : BootRange) (count : Nat) :
    1024 * range.window count + range.slot count = range.firstPage + count := by
  unfold BootRange.window BootRange.slot
  omega

theorem BootRange.contains_succ {page : Nat} : range.Contains (count + 1) page ↔
    range.Contains count page ∨ page = range.firstPage + count := by
  unfold BootRange.Contains
  omega

theorem BootRange.contains_succ_of_ne {page : Nat} (other : page ≠ range.firstPage + count) :
    range.Contains (count + 1) page ↔ range.Contains count page := by
  rw [BootRange.contains_succ]
  exact or_iff_left other

theorem RangeMapped.begin (next : NextFrame kernel σ start)
    (own : OwnTables inside range.pgdir start σ) : RangeMapped kernel inside range start σ 0 σ := by
  constructor
  · exact next
  · rfl
  · exact own
  · exact fun _ _ => rfl
  · intro w member
    simp [BootRange.newWindows_zero] at member
  · intro w _ table _ j _
    rw [if_neg]
    unfold BootRange.Contains
    omega
  · exact fun _ _ _ => rfl
  · intro k below
    omega

theorem RangeMapped.window_mapped (mapped : RangeMapped kernel inside range start σ₀ count σ) {k : Nat}
    (earlier : k < count) : σ.memory range.pgdir (range.window k) ≠ 0 := by
  by_cases fresh : range.window k ∈ range.newWindows σ₀ count
  · obtain ⟨table, _, _, entry⟩ := mapped.made _ fresh
    rw [entry]
    exact bootTableEntry_ne_zero table
  · rw [mapped.old _ fresh]
    intro absent
    exact fresh (BootRange.mem_newWindows.mpr ⟨⟨k, earlier, rfl⟩, absent⟩)

theorem RangeMapped.stepExisting (mapped : RangeMapped kernel inside range start σ₀ count σ)
    (covers : inside (range.window count)) {table : Nat}
    (named : pageTable σ range.pgdir (range.window count) = some table)
    (bound : table < σ₀.numberOfFrames) :
    RangeMapped kernel inside range start σ₀ (count + 1)
      (σ.setWord table (range.slot count) (range.entry (range.firstPage + count))) := by
  have different := (mapped.own.table _ covers _ named).2.2
  have present := (entryTarget_eq_some_iff.mp named).1
  have windows : range.newWindows σ₀ (count + 1) = range.newWindows σ₀ count := by
    apply BootRange.newWindows_succ_old
    by_cases fresh : range.window count ∈ range.newWindows σ₀ count
    · exact Or.inr fresh
    · rw [mapped.old _ fresh] at present
      exact Or.inl present
  have after : range.nextAfter σ₀ start (count + 1) = range.nextAfter σ₀ start count := by
    rw [BootRange.nextAfter, windows, BootRange.nextAfter]
  have directory : (σ.setWord table (range.slot count)
      (range.entry (range.firstPage + count))).memory range.pgdir = σ.memory range.pgdir :=
    write_other different.symm _ _
  have tables : pageTable (σ.setWord table (range.slot count)
      (range.entry (range.firstPage + count))) range.pgdir = pageTable σ range.pgdir := by
    funext w
    rw [pageTable, directory, pageTable]
  have page := range.page_eq count
  constructor
  · rw [after]
    exact mapped.next
  · exact mapped.sameFrames
  · rw [after]
    refine ⟨?_, ?_⟩
    · rw [tables]
      exact mapped.own.table
    · rw [tables]
      exact mapped.own.distinct
  · rw [directory, windows]
    exact mapped.old
  · rw [directory, windows, after]
    exact mapped.made
  · intro w covered table' named' j below
    rw [tables] at named'
    have content := mapped.pages w covered table' named' j below
    change write σ.memory table _ _ table' j = _
    rw [write_apply]
    by_cases here : table' = table ∧ j = range.slot count
    · obtain ⟨rfl, rfl⟩ := here
      have same := mapped.own.distinct w _ table' covered covers named' named
      rw [if_pos ⟨rfl, rfl⟩, same, page, if_pos (BootRange.contains_succ.mpr (Or.inr rfl))]
    · rw [if_neg here, content]
      have otherPage : 1024 * w + j ≠ range.firstPage + count := by
        intro equal
        unfold BootRange.slot at here page
        have window : w = range.window count := by omega
        subst window
        rw [named'] at named
        exact here ⟨Option.some.inj named, by omega⟩
      exact if_congr (BootRange.contains_succ_of_ne otherPage).symm rfl rfl
  · intro frame notDirectory notTable
    rw [tables] at notTable
    rw [← mapped.others frame notDirectory notTable]
    apply write_other
    rintro rfl
    exact notTable _ covers named
  · intro k below sameWindow table' named'
    rw [tables] at named'
    by_cases last : k + 1 = count
    · subst last
      rw [sameWindow, named] at named'
      exact Option.some.inj named' ▸ bound
    · exact mapped.checked k (by omega) sameWindow table' named'

theorem RangeMapped.notNew (mapped : RangeMapped kernel inside range start σ₀ count σ)
    (absent : σ.memory range.pgdir (range.window count) = 0) :
    range.window count ∉ range.newWindows σ₀ count := by
  intro member
  obtain ⟨table, _, _, entry⟩ := mapped.made _ member
  rw [entry] at absent
  exact bootTableEntry_ne_zero table absent

theorem RangeMapped.newWindows_fresh (mapped : RangeMapped kernel inside range start σ₀ count σ)
    (absent : σ.memory range.pgdir (range.window count) = 0) :
    range.newWindows σ₀ (count + 1) = insert (range.window count) (range.newWindows σ₀ count) := by
  apply BootRange.newWindows_succ_new
  rw [← mapped.old _ (mapped.notNew absent), absent]

theorem RangeMapped.nextAfter_fresh (mapped : RangeMapped kernel inside range start σ₀ count σ)
    (absent : σ.memory range.pgdir (range.window count) = 0) :
    range.nextAfter σ₀ start (count + 1) = range.nextAfter σ₀ start count + 1 := by
  rw [BootRange.nextAfter, mapped.newWindows_fresh absent,
    Finset.card_insert_of_notMem (mapped.notNew absent), BootRange.nextAfter]
  rfl

/-- No page before the next one lies in a window that has no table yet. -/
theorem RangeMapped.alone_in_window (mapped : RangeMapped kernel inside range start σ₀ count σ)
    (absent : σ.memory range.pgdir (range.window count) = 0) {j : Nat} (below : j < 1024)
    (contained : range.Contains (count + 1) (1024 * range.window count + j)) :
    j = range.slot count := by
  have page := range.page_eq count
  rcases BootRange.contains_succ.mp contained with earlier | equal
  · obtain ⟨low, high⟩ := earlier
    have window : range.window (1024 * range.window count + j - range.firstPage) =
        range.window count := by
      unfold BootRange.window at low ⊢
      omega
    have before : 1024 * range.window count + j - range.firstPage < count := by omega
    have present := mapped.window_mapped before
    rw [window] at present
    exact absurd absent present
  · omega

/-- The window's new table is the frame that comes next. -/
theorem OwnTables.add {pgdir window fresh : Nat} {σ' : State}
    (own : OwnTables inside pgdir fresh σ) (positive : 0 < fresh) (different : fresh ≠ pgdir)
    (here : pageTable σ' pgdir window = some fresh)
    (elsewhere : ∀ w, w ≠ window → pageTable σ' pgdir w = pageTable σ pgdir w) :
    OwnTables inside pgdir (fresh + 1) σ' := by
  have unnamed : ∀ w, inside w → pageTable σ pgdir w ≠ some fresh := by
    intro w covered named
    have facts := own.table w covered fresh named
    omega
  constructor
  · intro w covered table named
    by_cases same : w = window
    · rw [same, here] at named
      cases named
      omega
    · rw [elsewhere w same] at named
      have facts := own.table w covered table named
      omega
  · intro w w' table covered covered' named named'
    by_cases same : w = window <;> by_cases same' : w' = window
    · rw [same, same']
    · rw [same, here] at named
      rw [elsewhere w' same', ← Option.some.inj named] at named'
      exact absurd named' (unnamed w' covered')
    · rw [same', here] at named'
      rw [elsewhere w same, ← Option.some.inj named'] at named
      exact absurd named (unnamed w covered)
    · rw [elsewhere w same] at named
      rw [elsewhere w' same'] at named'
      exact own.distinct w w' table covered covered' named named'

def writeFresh (kernel : KernelImage) (range : BootRange) (count table : Nat) (σ : State) : State :=
  let σ := (bootAllocateSpace kernel.endOfKernel σ pageSize pageSize).2
  let σ := σ.setWord range.pgdir (range.window count) (bootTableEntry table)
  σ.setWord table (range.slot count) (range.entry (range.firstPage + count))

theorem numberOfFrames_writeFresh (kernel : KernelImage) (range : BootRange) (count table : Nat)
    (σ : State) : (writeFresh kernel range count table σ).numberOfFrames = σ.numberOfFrames := by
  simp only [writeFresh, bootAllocateSpace, State.setWord]

theorem memory_writeFresh (kernel : KernelImage) (range : BootRange) (count table : Nat)
    (σ : State) : (writeFresh kernel range count table σ).memory =
      write (write σ.memory range.pgdir (range.window count) (bootTableEntry table)) table
        (range.slot count) (range.entry (range.firstPage + count)) := by
  simp only [writeFresh, bootAllocateSpace, State.setWord]

theorem NextFrame.writeFresh {frame : Nat} (next : NextFrame kernel σ frame) (range : BootRange)
    (count table : Nat) (room : frame + 1 < 65536) :
    NextFrame kernel (FosV2.writeFresh kernel range count table σ) (frame + 1) := by
  have onePage : (pageSize.toNat + 4095) / 4096 = 1 := by decide
  apply (next.allocate pageSize onePage room).congr
  simp only [FosV2.writeFresh, State.setWord]

theorem RangeMapped.stepFresh (mapped : RangeMapped kernel inside range start σ₀ count σ)
    (covers : inside (range.window count))
    (absent : σ.memory range.pgdir (range.window count) = 0) (low : range.pgdir < start)
    (room : range.nextAfter σ₀ start count + 1 < 65536) :
    RangeMapped kernel inside range start σ₀ (count + 1)
      (writeFresh kernel range count (range.nextAfter σ₀ start count) σ) := by
  have windows := mapped.newWindows_fresh absent
  have after := mapped.nextAfter_fresh absent
  have moved := mapped.next.writeFresh range count (range.nextAfter σ₀ start count) room
  have fits : range.nextAfter σ₀ start count < 1048576 := by omega
  have above : start ≤ range.nextAfter σ₀ start count := Nat.le_add_right _ _
  have own := mapped.own
  generalize made : range.nextAfter σ₀ start count = fresh at *
  have different : fresh ≠ range.pgdir := by omega
  have memory := memory_writeFresh kernel range count fresh σ
  have frames := numberOfFrames_writeFresh kernel range count fresh σ
  generalize writeFresh kernel range count fresh σ = σ' at moved memory frames ⊢
  have directory (w : Nat) : σ'.memory range.pgdir w =
      if w = range.window count then bootTableEntry fresh else σ.memory range.pgdir w := by
    rw [memory, write_other different.symm, write_apply]
    simp only [true_and]
  have here : pageTable σ' range.pgdir (range.window count) = some fresh := by
    apply pageTable_of_bootTableEntry fits
    rw [directory, if_pos rfl]
  have elsewhere {w : Nat} (other : w ≠ range.window count) :
      pageTable σ' range.pgdir w = pageTable σ range.pgdir w := by
    rw [pageTable, directory, if_neg other, pageTable]
  have unnamed {w : Nat} (covered : inside w) : pageTable σ range.pgdir w ≠ some fresh :=
    fun named => Nat.lt_irrefl fresh (own.table w covered fresh named).2.1
  have untouched {frame : Nat} (notDirectory : frame ≠ range.pgdir) (notFresh : frame ≠ fresh) :
      σ'.memory frame = σ.memory frame := by
    rw [memory, write_other notFresh, write_other notDirectory]
  have page := range.page_eq count
  constructor
  · rw [after]
    exact moved
  · rw [frames, mapped.sameFrames]
  · rw [after]
    exact own.add (by omega) different here fun w other => elsewhere other
  · intro w notMember
    rw [windows, Finset.mem_insert, not_or] at notMember
    rw [directory, if_neg notMember.1]
    exact mapped.old w notMember.2
  · intro w member
    rw [after]
    by_cases same : w = range.window count
    · exact ⟨fresh, above, Nat.lt_succ_self fresh, by rw [directory, if_pos same]⟩
    · rw [windows, Finset.mem_insert] at member
      obtain ⟨table, low, high, entry⟩ := mapped.made w (member.resolve_left same)
      refine ⟨table, low, by omega, ?_⟩
      rw [directory, if_neg same, entry]
  · intro w covered table named j below
    by_cases same : w = range.window count
    · subst same
      rw [here] at named
      cases named
      have before : σ.memory fresh = σ₀.memory fresh :=
        mapped.others fresh different fun w covered => unnamed covered
      rw [memory, write_apply]
      simp only [true_and]
      by_cases slot : j = range.slot count
      · subst slot
        rw [if_pos rfl, page, if_pos (BootRange.contains_succ.mpr (Or.inr rfl))]
      · rw [if_neg slot, write_other different, before, if_neg]
        exact fun contained => slot (mapped.alone_in_window absent below contained)
    · rw [elsewhere same] at named
      have facts := mapped.own.table w covered table named
      rw [untouched facts.2.2 (by omega), mapped.pages w covered table named j below]
      have otherPage : 1024 * w + j ≠ range.firstPage + count := by
        unfold BootRange.slot at page
        omega
      exact if_congr (BootRange.contains_succ_of_ne otherPage).symm rfl rfl
  · intro frame notDirectory notTable
    by_cases isFresh : frame = fresh
    · exact absurd here (isFresh ▸ notTable _ covers)
    · rw [untouched notDirectory isFresh]
      apply mapped.others frame notDirectory
      intro w covered named
      by_cases same : w = range.window count
      · rw [same, pageTable, absent] at named
        cases named
      · exact notTable w covered (by rw [elsewhere same, named])
  · intro k below sameWindow table named
    have last : k + 1 ≠ count := by
      rintro rfl
      have present := mapped.window_mapped (k := k) (Nat.lt_succ_self k)
      rw [sameWindow] at present
      exact present absent
    have otherWindow : range.window k ≠ range.window count := by
      intro same
      have present := mapped.window_mapped (k := k) (by omega)
      rw [same] at present
      exact present absent
    rw [elsewhere otherWindow] at named
    exact mapped.checked k (by omega) sameWindow table named

end Turn

section Loop

variable {kernel : KernelImage} {inside : Nat → Prop} {range : BootRange} {start pages count : Nat}
  {σ₀ σ : State} {va : Word}

theorem bootGetPageTable_existing {pgdir table : Nat}
    (named : pageTable σ pgdir (pdx va) = some table) (positive : 0 < table)
    (fits : table < 1048576) (endOfKernel : Word) :
    bootGetPageTable endOfKernel σ pgdir va true =
      if table < σ.numberOfFrames then .ok (some table, σ)
      else .error (.kVirtualAddress (toPhysicalAddress table)) := by
  have address : extractAddress (σ.memory pgdir (pdx va)) = toPhysicalAddress table :=
    (extractAddress_eq_iff fits).mpr (entryTarget_eq_some_iff.mp named).2
  have nonzero : toPhysicalAddress table ≠ 0 := by
    intro zero
    have number := toPhysicalAddress_toNat fits
    rw [zero] at number
    have none : (0 : Word).toNat = 0 := rfl
    omega
  simp only [bootGetPageTable, address, kVirtualAddress, ppn_toPhysicalAddress fits, ge_iff_le]
  by_cases bound : table < σ.numberOfFrames
  · rw [if_neg (Nat.not_le.mpr bound), if_pos bound, ok_bind, if_neg nonzero]
    rfl
  · rw [if_pos (Nat.not_lt.mp bound), if_neg bound, error_bind]

theorem bootGetPageTable_fresh {pgdir frame : Nat} (absent : σ.memory pgdir (pdx va) = 0)
    (next : NextFrame kernel σ frame) (fits : frame < 1048576) :
    bootGetPageTable kernel.endOfKernel σ pgdir va true =
      if 0 < σ.numberOfFrames then
        .ok (some frame, (bootAllocateSpace kernel.endOfKernel σ pageSize pageSize).2.setWord
          pgdir (pdx va) (bootTableEntry frame))
      else .error (.kVirtualAddress 0) := by
  have first : ppn 0 = 0 := by decide
  simp only [bootGetPageTable, absent, extractAddress_zero, kVirtualAddress, first, ge_iff_le]
  by_cases some : 0 < σ.numberOfFrames
  · rw [if_neg (Nat.not_le.mpr some), if_pos some, ok_bind, if_true, if_true,
      next.kPhysicalAddress, ok_bind, ppn_toPhysicalAddress fits]
    rfl
  · rw [if_pos (Nat.not_lt.mp some), if_neg some, error_bind]

theorem BootRange.newWindows_mono (range : BootRange) (σ : State) {fewer more : Nat}
    (le : fewer ≤ more) : range.newWindows σ fewer ⊆ range.newWindows σ more := by
  intro w member
  obtain ⟨⟨k, bound, window⟩, absent⟩ := BootRange.mem_newWindows.mp member
  exact BootRange.mem_newWindows.mpr ⟨⟨k, by omega, window⟩, absent⟩

theorem BootRange.nextAfter_mono (range : BootRange) (σ : State) (start : Nat) {fewer more : Nat}
    (le : fewer ≤ more) : range.nextAfter σ start fewer ≤ range.nextAfter σ start more :=
  Nat.add_le_add_left (Finset.card_le_card (range.newWindows_mono σ le)) start

structure MapsFrom (kernel : KernelImage) (inside : Nat → Prop) (range : BootRange)
    (start pages : Nat) (σ₀ : State) : Prop where
  covers : ∀ k < pages, inside (range.window k)
  fits : range.firstPage + pages ≤ 1048576
  own : OwnTables inside range.pgdir start σ₀
  low : range.pgdir < start
  next : NextFrame kernel σ₀ start
  room : range.nextAfter σ₀ start pages < 65536

structure LoopAt (kernel : KernelImage) (inside : Nat → Prop) (range : BootRange)
    (start pages : Nat) (σ₀ : State) (count : Nat) (loop : MapLoop) : Prop where
  bound : count ≤ pages
  i : loop.i = toPhysicalAddress count
  virtualAddress : loop.virtualAddress = toPhysicalAddress (range.firstPage + count)
  physicalAddress : loop.physicalAddress = range.physicalAddress + toPhysicalAddress count
  mapped : RangeMapped kernel inside range start σ₀ count loop.state

theorem pdx_toPhysicalAddress {page : Nat} (fits : page < 1048576) :
    pdx (toPhysicalAddress page) = page / 1024 := by
  rw [pdx_eq, toPhysicalAddress_toNat fits]
  omega

theorem ptx_toPhysicalAddress {page : Nat} (fits : page < 1048576) :
    ptx (toPhysicalAddress page) = page % 1024 := by
  rw [ptx_eq, toPhysicalAddress_toNat fits]
  omega

theorem bootMapTurn_of_table {endOfKernel perm : Word} {pgdir table : Nat} {loop : MapLoop}
    {σ' : State} (found : bootGetPageTable endOfKernel loop.state pgdir loop.virtualAddress true =
      .ok (some table, σ')) :
    bootMapTurn endOfKernel pgdir perm loop = .ok {
      i := loop.i + pageSize
      virtualAddress := loop.virtualAddress + pageSize
      physicalAddress := loop.physicalAddress + pageSize
      state := σ'.setWord table (ptx loop.virtualAddress)
        (constructEntry loop.physicalAddress (perm ||| permPresent)) } := by
  simp only [bootMapTurn, found, ok_bind]
  rfl

theorem LoopAt.advance {loop : MapLoop} {σ' : State}
    (now : LoopAt kernel inside range start pages σ₀ count loop) (more : count < pages)
    (mapped : RangeMapped kernel inside range start σ₀ (count + 1) σ') :
    LoopAt kernel inside range start pages σ₀ (count + 1)
      ⟨loop.i + pageSize, loop.virtualAddress + pageSize, loop.physicalAddress + pageSize, σ'⟩ where
  bound := more
  i := by
    rw [toPhysicalAddress_add, toPhysicalAddress_one, ← now.i]
  virtualAddress := by
    rw [← Nat.add_assoc, toPhysicalAddress_add _ 1, toPhysicalAddress_one, ← now.virtualAddress]
  physicalAddress := by
    rw [toPhysicalAddress_add, toPhysicalAddress_one, ← BitVec.add_assoc, ← now.physicalAddress]
  mapped := mapped

/-- One turn: it writes the next page's entry, or stops at a page table that lies outside
the physical memory. -/
theorem LoopAt.turn {loop : MapLoop} (maps : MapsFrom kernel inside range start pages σ₀)
    (now : LoopAt kernel inside range start pages σ₀ count loop) (more : count < pages) :
    (∃ next, bootMapTurn kernel.endOfKernel range.pgdir range.perm loop = .ok next ∧
        LoopAt kernel inside range start pages σ₀ (count + 1) next) ∨
      (∃ stop, bootMapTurn kernel.endOfKernel range.pgdir range.perm loop = .error stop) ∧
        σ₀.numberOfFrames < range.nextAfter σ₀ start pages := by
  have fits := maps.fits
  have low := maps.low
  have room := maps.room
  have covers := maps.covers count more
  have mapped := now.mapped
  have frames := mapped.sameFrames
  have directory : pdx loop.virtualAddress = range.window count := by
    rw [now.virtualAddress, pdx_toPhysicalAddress (by omega), BootRange.window]
  have slot : ptx loop.virtualAddress = range.slot count := by
    rw [now.virtualAddress, ptx_toPhysicalAddress (by omega), BootRange.slot]
  have entry : constructEntry loop.physicalAddress (range.perm ||| permPresent) =
      range.entry (range.firstPage + count) := by
    rw [now.physicalAddress, BootRange.entry, Nat.add_sub_cancel_left]
  have begun : start ≤ range.nextAfter σ₀ start pages := Nat.le_add_right _ _
  have laterFrames : range.nextAfter σ₀ start (count + 1) ≤ range.nextAfter σ₀ start pages :=
    range.nextAfter_mono σ₀ start more
  have soFar := range.nextAfter_mono σ₀ start (Nat.le_of_lt more)
  cases named : pageTable loop.state range.pgdir (range.window count) with
  | some table =>
      have facts := mapped.own.table _ covers table named
      have lookup := bootGetPageTable_existing (directory.symm ▸ named) facts.1 (by omega)
        kernel.endOfKernel
      rw [frames] at lookup
      by_cases bound : table < σ₀.numberOfFrames
      · rw [if_pos bound] at lookup
        refine Or.inl ⟨_, bootMapTurn_of_table lookup, now.advance more ?_⟩
        rw [slot, entry]
        exact mapped.stepExisting covers named bound
      · rw [if_neg bound] at lookup
        refine Or.inr ⟨⟨_, by simp only [bootMapTurn, lookup, error_bind]; rfl⟩, by omega⟩
  | none =>
      have absent := entryTarget_eq_none_iff.mp named
      have lookup := bootGetPageTable_fresh (directory.symm ▸ absent) mapped.next (by omega)
      rw [frames] at lookup
      by_cases some : 0 < σ₀.numberOfFrames
      · rw [if_pos some] at lookup
        refine Or.inl ⟨_, bootMapTurn_of_table lookup, now.advance more ?_⟩
        rw [slot, entry, directory]
        have grown := mapped.nextAfter_fresh absent
        exact mapped.stepFresh covers absent low (by omega)
      · rw [if_neg some] at lookup
        refine Or.inr ⟨⟨_, by simp only [bootMapTurn, lookup, error_bind]; rfl⟩, by omega⟩

theorem LoopAt.test {loop : MapLoop} {size : Word}
    (now : LoopAt kernel inside range start pages σ₀ count loop)
    (covers : (size.toNat + 4095) / 4096 = pages) (wide : pages < 1048576) :
    decide (loop.i < size) = true ↔ count < pages := by
  have bound := now.bound
  rw [decide_eq_true_iff, BitVec.lt_def, now.i, toPhysicalAddress_toNat (by omega)]
  omega

theorem LoopAt.begin {physicalAddress : Word} (maps : MapsFrom kernel inside range start pages σ₀)
    (aligned : roundUp physicalAddress pageSize = range.physicalAddress) :
    LoopAt kernel inside range start pages σ₀ 0
      ⟨0, toPhysicalAddress range.firstPage, roundUp physicalAddress pageSize, σ₀⟩ where
  bound := Nat.zero_le pages
  i := toPhysicalAddress_zero.symm
  virtualAddress := rfl
  physicalAddress := by
    rw [toPhysicalAddress_zero, aligned]
    exact (BitVec.add_zero range.physicalAddress).symm
  mapped := RangeMapped.begin maps.next maps.own

variable {size physicalAddress : Word}

theorem bootMapRange_mapped (maps : MapsFrom kernel inside range start pages σ₀)
    (covers : (size.toNat + 4095) / 4096 = pages) (wide : pages < 1048576)
    (aligned : roundUp physicalAddress pageSize = range.physicalAddress)
    (returned : bootMapRange kernel.endOfKernel σ₀ range.pgdir (toPhysicalAddress range.firstPage)
      size physicalAddress range.perm = .ok σ) :
    RangeMapped kernel inside range start σ₀ pages σ := by
  unfold bootMapRange at returned
  cases result : WhileLoop.run (fun loop : MapLoop => loop.i < size)
      (bootMapTurn kernel.endOfKernel range.pgdir range.perm) .endlessLoop pageLoopFuel
      ⟨0, toPhysicalAddress range.firstPage, roundUp physicalAddress pageSize, σ₀⟩ with
  | error stop =>
      rw [result, error_bind] at returned
      cases returned
  | ok loop =>
      rw [result, ok_bind] at returned
      cases returned
      have preserved : ∀ turn loop next,
          LoopAt kernel inside range start pages σ₀ turn loop →
          decide (loop.i < size) = true →
          bootMapTurn kernel.endOfKernel range.pgdir range.perm loop = .ok next →
          LoopAt kernel inside range start pages σ₀ (turn + 1) next := by
        intro turn loop next now continues turned
        have more := (now.test covers wide).mp continues
        rcases now.turn maps more with ⟨next', turned', after⟩ | ⟨⟨stop, failed⟩, _⟩
        · rw [turned] at turned'
          cases turned'
          exact after
        · rw [turned] at failed
          cases failed
      obtain ⟨turns, finished, stopped⟩ :=
        WhileLoop.invariant_of_run preserved (LoopAt.begin maps aligned) result
      have last : ¬turns < pages := by
        intro more
        rw [(finished.test covers wide).mpr more] at stopped
        cases stopped
      have bound := finished.bound
      have all : turns = pages := by omega
      subst all
      exact finished.mapped

theorem bootMapRange_returns (maps : MapsFrom kernel inside range start pages σ₀)
    (covers : (size.toNat + 4095) / 4096 = pages) (wide : pages < 1048576)
    (aligned : roundUp physicalAddress pageSize = range.physicalAddress)
    (enough : range.nextAfter σ₀ start pages ≤ σ₀.numberOfFrames) :
    ∃ σ, bootMapRange kernel.endOfKernel σ₀ range.pgdir (toPhysicalAddress range.firstPage)
      size physicalAddress range.perm = .ok σ ∧ RangeMapped kernel inside range start σ₀ pages σ := by
  have continues : ∀ turn < pages, ∀ loop, LoopAt kernel inside range start pages σ₀ turn loop →
      decide (loop.i < size) = true ∧ ∃ next,
        bootMapTurn kernel.endOfKernel range.pgdir range.perm loop = .ok next ∧
        LoopAt kernel inside range start pages σ₀ (turn + 1) next := by
    intro turn more loop now
    refine ⟨(now.test covers wide).mpr more, ?_⟩
    rcases now.turn maps more with turned | ⟨_, short⟩
    · exact turned
    · exact absurd enough (Nat.not_le.mpr short)
  have stops : ∀ loop, LoopAt kernel inside range start pages σ₀ pages loop →
      decide (loop.i < size) = false := by
    intro loop now
    rw [← Bool.not_eq_true, now.test covers wide]
    exact Nat.lt_irrefl pages
  have fuel : pages < 0 + pageLoopFuel := by
    unfold pageLoopFuel
    omega
  obtain ⟨loop, result, finished⟩ := WhileLoop.run_of_invariant continues stops
    (Nat.zero_le pages) (LoopAt.begin maps aligned) fuel
  refine ⟨loop.state, ?_, finished.mapped⟩
  unfold bootMapRange
  rw [result, ok_bind]
  rfl

end Loop

end FosV2
