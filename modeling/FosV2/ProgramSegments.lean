import FosV2.BootLoader
import FosV2.IndexScan

/-!
The iteration over the program segments of an image (`kern/user_environment.c`). Besides the
segment it keeps which headers have been read. The body of the loop is taken to leave the
image and the segment alone.
-/

namespace FosV2

def elfProgLoad : Word := 1

/-- `panic("Matafa2nash 3ala Keda")`, or a loop out of fuel. -/
inductive SegmentStop where
  | badMagic
  | endlessLoop

structure ProgramSegment where
  ptrStart : Word
  sizeInFile : Word
  sizeInMemory : Word
  virtualAddress : Word
  segmentId : Word

/-- `reads`: the indices of the headers read so far -/
structure SegmentScan where
  seg : ProgramSegment
  reads : List Word

section Image

variable (mem : Memory) (ptrProgramStart : Word)

/-- `&ph[index]` -/
def programHeader (index : Word) : Word :=
  ptrProgramStart + load32 mem (ptrProgramStart + 28) + 32 * index

def pType (index : Word) : Word := load32 mem (programHeader mem ptrProgramStart index)

def phnum : BitVec 16 := load16 mem (ptrProgramStart + 44)

/-- `while (ph[id].p_type != ELF_PROG_LOAD && (id < e_phnum)) id++;` -/
def SegmentScan.skip : Nat → SegmentScan → Except SegmentStop SegmentScan
  | 0, _ => .error .endlessLoop
  | fuel + 1, s =>
      let id := s.seg.segmentId
      let reads := s.reads ++ [id]
      if pType mem ptrProgramStart id ≠ elfProgLoad ∧
          id < (phnum mem ptrProgramStart).setWidth 32 then
        skip fuel ⟨{ s.seg with segmentId := id + 1 }, reads⟩
      else .ok ⟨s.seg, reads⟩

def segmentAt (index : Word) : ProgramSegment :=
  let ph := programHeader mem ptrProgramStart index
  ⟨ptrProgramStart + load32 mem (ph + 4), load32 mem (ph + 16), load32 mem (ph + 20),
    load32 mem (ph + 8), index⟩

/-- `index` is an `int`. -/
def indexBelow (index : Word) : Bool :=
  index.slt ((phnum mem ptrProgramStart).setWidth 32)

/-- `uninitialised` is what the segment on the stack happens to hold. -/
def programSegmentFirst (uninitialised : ProgramSegment) : Except SegmentStop SegmentScan := do
  if load32 mem ptrProgramStart ≠ elfMagic then throw .badMagic
  let s ← SegmentScan.skip mem ptrProgramStart headerFuel
    ⟨{ uninitialised with segmentId := 0 }, []⟩
  let index := s.seg.segmentId
  if indexBelow mem ptrProgramStart index then
    return ⟨segmentAt mem ptrProgramStart index, s.reads ++ [index]⟩
  return { s with seg.segmentId := -1 }

/-- Next to the segment: whether it is returned, and not the null pointer. -/
def programSegmentNext (s : SegmentScan) : Except SegmentStop (SegmentScan × Bool) := do
  let s : SegmentScan := { s with seg.segmentId := s.seg.segmentId + 1 }
  if load32 mem ptrProgramStart ≠ elfMagic then throw .badMagic
  let s ← s.skip mem ptrProgramStart headerFuel
  let index := s.seg.segmentId
  if indexBelow mem ptrProgramStart index then
    return (⟨segmentAt mem ptrProgramStart index, s.reads ++ [index]⟩, true)
  return (s, false)

def segmentLoop : Nat → SegmentScan × Bool → List ProgramSegment →
    Except SegmentStop (List ProgramSegment × List Word)
  | 0, _, _ => .error .endlessLoop
  | fuel + 1, (s, found), visited =>
      if found then do
        let next ← programSegmentNext mem ptrProgramStart s
        segmentLoop fuel next (visited ++ [s.seg])
      else .ok (visited, s.reads)

def programSegmentForeach (uninitialised : ProgramSegment) :
    Except SegmentStop (List ProgramSegment × List Word) := do
  let first ← programSegmentFirst mem ptrProgramStart uninitialised
  segmentLoop mem ptrProgramStart headerFuel (first, first.seg.segmentId != -1) []

/-! ## The loadable headers -/

def isLoad (i : Nat) : Bool := pType mem ptrProgramStart (BitVec.ofNat 32 i) == elfProgLoad

def loadableFrom (i : Nat) : List Nat :=
  IndexScan.matchesFrom (isLoad mem ptrProgramStart) (phnum mem ptrProgramStart).toNat i

inductive StandsAt (i : Nat) : SegmentScan × Bool → Prop
  | visits (j : Nat) (reads : List Word) (later : i ≤ j)
      (inside : j < (phnum mem ptrProgramStart).toNat)
      (next : loadableFrom mem ptrProgramStart i = j :: loadableFrom mem ptrProgramStart (j + 1)) :
      StandsAt i (⟨segmentAt mem ptrProgramStart (BitVec.ofNat 32 j), reads⟩, true)
  | finished (s : SegmentScan) (none : loadableFrom mem ptrProgramStart i = [])
      (read : BitVec.ofNat 32 (phnum mem ptrProgramStart).toNat ∈ s.reads) :
      StandsAt i (s, false)

end Image

variable {mem : Memory} {ptrProgramStart : Word} {i count fuel : Nat} {seg : ProgramSegment}
  {reads : List Word}

theorem lt_phnum_iff (small : i ≤ 2 ^ 16) :
    BitVec.ofNat 32 i < (phnum mem ptrProgramStart).setWidth 32 ↔
      i < (phnum mem ptrProgramStart).toNat := by
  have bound := (phnum mem ptrProgramStart).isLt
  rw [BitVec.lt_def, BitVec.toNat_ofNat, BitVec.toNat_setWidth, Nat.mod_eq_of_lt (by omega),
    Nat.mod_eq_of_lt (by omega)]

theorem indexBelow_iff (small : i ≤ 2 ^ 16) :
    indexBelow mem ptrProgramStart (BitVec.ofNat 32 i) = true ↔
      i < (phnum mem ptrProgramStart).toNat := by
  have bound := (phnum mem ptrProgramStart).isLt
  have index : (BitVec.ofNat 32 i).toNat = i := by
    rw [BitVec.toNat_ofNat]
    omega
  have headers : ((phnum mem ptrProgramStart).setWidth 32).toNat =
      (phnum mem ptrProgramStart).toNat := by
    rw [BitVec.toNat_setWidth]
    omega
  rw [indexBelow, BitVec.slt, decide_eq_true_iff,
    BitVec.toInt_eq_toNat_of_lt (by omega), BitVec.toInt_eq_toNat_of_lt (by omega), index, headers]
  omega

theorem skip_stops (below : i + count ≤ (phnum mem ptrProgramStart).toNat)
    (none : ∀ j, i ≤ j → j < i + count → isLoad mem ptrProgramStart j = false)
    (found : i + count < (phnum mem ptrProgramStart).toNat →
      isLoad mem ptrProgramStart (i + count) = true)
    (enough : count < fuel) (id : seg.segmentId = BitVec.ofNat 32 i) : ∃ reads',
      SegmentScan.skip mem ptrProgramStart fuel ⟨seg, reads⟩ =
        .ok ⟨{ seg with segmentId := BitVec.ofNat 32 (i + count) }, reads'⟩ ∧
      BitVec.ofNat 32 (i + count) ∈ reads' := by
  have bound := (phnum mem ptrProgramStart).isLt
  obtain ⟨fuel, rfl⟩ := Nat.exists_eq_succ_of_ne_zero (Nat.ne_of_gt (Nat.lt_of_le_of_lt
    (Nat.zero_le count) enough))
  induction count generalizing i seg reads fuel with
  | zero =>
      refine ⟨reads ++ [BitVec.ofNat 32 i], ?_, List.mem_append_right _ (.head _)⟩
      have stops : ¬(pType mem ptrProgramStart (BitVec.ofNat 32 i) ≠ elfProgLoad ∧
          BitVec.ofNat 32 i < (phnum mem ptrProgramStart).setWidth 32) := by
        rintro ⟨other, inside⟩
        have loadable := found ((lt_phnum_iff (by omega)).mp inside)
        exact other (beq_iff_eq.mp loadable)
      have same : { seg with segmentId := BitVec.ofNat 32 (i + 0) } = seg := by
        rw [Nat.add_zero, ← id]
      rw [SegmentScan.skip, id, if_neg stops, same]
  | succ count ih =>
      have goesOn : pType mem ptrProgramStart (BitVec.ofNat 32 i) ≠ elfProgLoad ∧
          BitVec.ofNat 32 i < (phnum mem ptrProgramStart).setWidth 32 := by
        have other := none i (Nat.le_refl i) (by omega)
        exact ⟨beq_eq_false_iff_ne.mp other, (lt_phnum_iff (by omega)).mpr (by omega)⟩
      have next : i + (count + 1) = i + 1 + count := by omega
      rw [next] at below none found ⊢
      obtain ⟨fuel, rfl⟩ := Nat.exists_eq_succ_of_ne_zero (by omega : fuel ≠ 0)
      rw [SegmentScan.skip, id, if_pos goesOn]
      exact ih below (fun j above => none j (by omega)) found (BitVec.ofNat_add i 1).symm fuel
        (Nat.lt_of_succ_lt_succ enough)

theorem skip_standsAt (within : i ≤ (phnum mem ptrProgramStart).toNat)
    (id : seg.segmentId = BitVec.ofNat 32 i) : ∃ s,
      SegmentScan.skip mem ptrProgramStart headerFuel ⟨seg, reads⟩ = .ok s ∧
      StandsAt mem ptrProgramStart i (if indexBelow mem ptrProgramStart s.seg.segmentId then
        (⟨segmentAt mem ptrProgramStart s.seg.segmentId, s.reads ++ [s.seg.segmentId]⟩, true)
      else (s, false)) := by
  have bound := (phnum mem ptrProgramStart).isLt
  have fuel : headerFuel = 2 ^ 16 + 1 := rfl
  obtain ⟨count, most, none, found⟩ :=
    IndexScan.exists_next (p := isLoad mem ptrProgramStart) within
  have enough : count < headerFuel := by omega
  obtain ⟨reads', returned, last⟩ :=
    @skip_stops mem ptrProgramStart i count headerFuel seg reads most none found enough id
  have small : i + count ≤ 2 ^ 16 := by omega
  refine ⟨_, returned, ?_⟩
  have skipped : loadableFrom mem ptrProgramStart i = loadableFrom mem ptrProgramStart (i + count) :=
    IndexScan.matchesFrom_skip most none
  dsimp only
  split
  · rename_i below
    have inside := (indexBelow_iff small).mp below
    have here : loadableFrom mem ptrProgramStart (i + count) =
        (i + count) :: loadableFrom mem ptrProgramStart (i + count + 1) := by
      rw [loadableFrom, IndexScan.matchesFrom_step inside, found inside]
      rfl
    exact .visits _ _ (Nat.le_add_right i count) inside (skipped.trans here)
  · rename_i behind
    have atEnd : i + count = (phnum mem ptrProgramStart).toNat :=
      Nat.le_antisymm most (Nat.not_lt.mp fun inside => behind ((indexBelow_iff small).mpr inside))
    rw [atEnd] at skipped last
    exact .finished _ (skipped.trans IndexScan.matchesFrom_end) last

/-- The sentinel is not the index of a header. -/
theorem StandsAt.segmentId_ne {found : SegmentScan × Bool}
    (stands : StandsAt mem ptrProgramStart i found) (visiting : found.2 = true) :
    found.1.seg.segmentId ≠ -1 := by
  have bound := (phnum mem ptrProgramStart).isLt
  cases stands with
  | finished s none read => cases visiting
  | visits j reads later inside next =>
      intro sentinel
      have index : (BitVec.ofNat 32 j).toNat = (-1 : Word).toNat := congrArg BitVec.toNat sentinel
      have greatest : (-1 : Word).toNat = 4294967295 := rfl
      rw [BitVec.toNat_ofNat, greatest] at index
      omega

theorem programSegmentNext_standsAt (magic : load32 mem ptrProgramStart = elfMagic)
    (inside : i < (phnum mem ptrProgramStart).toNat) (reads : List Word) : ∃ found,
      programSegmentNext mem ptrProgramStart
        ⟨segmentAt mem ptrProgramStart (BitVec.ofNat 32 i), reads⟩ = .ok found ∧
      StandsAt mem ptrProgramStart (i + 1) found := by
  have id : BitVec.ofNat 32 i + 1 = BitVec.ofNat 32 (i + 1) := (BitVec.ofNat_add i 1).symm
  obtain ⟨s, returned, stands⟩ := @skip_standsAt mem ptrProgramStart (i + 1)
    { segmentAt mem ptrProgramStart (BitVec.ofNat 32 i) with
      segmentId := BitVec.ofNat 32 i + 1 } reads inside id
  refine ⟨_, ?_, stands⟩
  have same : programSegmentNext mem ptrProgramStart
      ⟨segmentAt mem ptrProgramStart (BitVec.ofNat 32 i), reads⟩ =
      if indexBelow mem ptrProgramStart s.seg.segmentId then
        .ok (⟨segmentAt mem ptrProgramStart s.seg.segmentId, s.reads ++ [s.seg.segmentId]⟩, true)
      else .ok (s, false) := by
    rw [programSegmentNext, if_neg (not_not.mpr magic)]
    exact congrArg (· >>= _) returned
  rw [same]
  split <;> rfl

theorem programSegmentFirst_standsAt (magic : load32 mem ptrProgramStart = elfMagic)
    (uninitialised : ProgramSegment) : ∃ first,
      programSegmentFirst mem ptrProgramStart uninitialised = .ok first ∧
      StandsAt mem ptrProgramStart 0 (first, first.seg.segmentId != -1) := by
  obtain ⟨s, returned, stands⟩ := @skip_standsAt mem ptrProgramStart 0
    { uninitialised with segmentId := 0 } [] (Nat.zero_le _) rfl
  have same : programSegmentFirst mem ptrProgramStart uninitialised =
      if indexBelow mem ptrProgramStart s.seg.segmentId then
        .ok ⟨segmentAt mem ptrProgramStart s.seg.segmentId, s.reads ++ [s.seg.segmentId]⟩
      else .ok { s with seg.segmentId := -1 } := by
    rw [programSegmentFirst, if_neg (not_not.mpr magic)]
    exact congrArg (· >>= _) returned
  rw [same]
  split at stands
  · rename_i below
    have found := bne_iff_ne.mpr (stands.segmentId_ne rfl)
    rw [if_pos below]
    refine ⟨_, rfl, ?_⟩
    rw [found]
    exact stands
  · rename_i behind
    rw [if_neg behind]
    refine ⟨_, rfl, ?_⟩
    cases stands with
    | finished _ none read => exact .finished _ none read

theorem segmentLoop_visits (magic : load32 mem ptrProgramStart = elfMagic)
    {found : SegmentScan × Bool} (stands : StandsAt mem ptrProgramStart i found)
    (within : i ≤ (phnum mem ptrProgramStart).toNat)
    (enough : (phnum mem ptrProgramStart).toNat < i + fuel) (visited : List ProgramSegment) :
    ∃ reads, segmentLoop mem ptrProgramStart fuel found visited =
        .ok (visited ++ (loadableFrom mem ptrProgramStart i).map fun j =>
          segmentAt mem ptrProgramStart (BitVec.ofNat 32 j), reads) ∧
      BitVec.ofNat 32 (phnum mem ptrProgramStart).toNat ∈ reads := by
  induction fuel generalizing i found visited with
  | zero => omega
  | succ fuel ih =>
      cases stands with
      | finished s none read =>
          refine ⟨s.reads, ?_, read⟩
          rw [none, List.map_nil, List.append_nil]
          rfl
      | visits j reads later inside next =>
          obtain ⟨further, returned, stands⟩ := programSegmentNext_standsAt magic inside reads
          obtain ⟨all, loops, read⟩ := ih stands inside (by omega)
            (visited ++ [segmentAt mem ptrProgramStart (BitVec.ofNat 32 j)])
          refine ⟨all, ?_, read⟩
          rw [next, List.map_cons, List.append_cons, ← loops, segmentLoop, if_pos rfl, returned]
          rfl

theorem programSegmentForeach_runs (magic : load32 mem ptrProgramStart = elfMagic)
    (uninitialised : ProgramSegment) : ∃ reads,
      programSegmentForeach mem ptrProgramStart uninitialised =
        .ok ((loadableFrom mem ptrProgramStart 0).map fun j =>
          segmentAt mem ptrProgramStart (BitVec.ofNat 32 j), reads) ∧
      BitVec.ofNat 32 (phnum mem ptrProgramStart).toNat ∈ reads := by
  have bound := (phnum mem ptrProgramStart).isLt
  have enough : (phnum mem ptrProgramStart).toNat < 0 + headerFuel := by
    rw [headerFuel]
    omega
  obtain ⟨first, returned, stands⟩ := programSegmentFirst_standsAt magic uninitialised
  obtain ⟨reads, loops, read⟩ := segmentLoop_visits magic stands (Nat.zero_le _) enough []
  refine ⟨reads, ?_, read⟩
  rw [programSegmentForeach, returned]
  exact loops

/-- The loop visits the loadable headers of the table, each once and in order. -/
theorem programSegmentForeach_visits (mem : Memory) (ptrProgramStart : Word)
    (uninitialised : ProgramSegment) (magic : load32 mem ptrProgramStart = elfMagic) : ∃ reads,
      programSegmentForeach mem ptrProgramStart uninitialised =
        .ok (((List.range (phnum mem ptrProgramStart).toNat).filter
          (isLoad mem ptrProgramStart)).map fun j =>
            segmentAt mem ptrProgramStart (BitVec.ofNat 32 j), reads) := by
  obtain ⟨reads, returned, _⟩ := programSegmentForeach_runs magic uninitialised
  refine ⟨reads, ?_⟩
  rw [List.range_eq_range']
  exact returned

def smallImage : Memory := fun a =>
  ([elfMagic, 0, 0, 0, 0, 0, 0, 52, 0, 0, 0, 2, 0] ++ [4, 0, 0, 0, 0, 0, 0, 0] ++
    [elfProgLoad, 116, 0x800020, 0, 16, 32, 5, 4096] : List Word).getD (a.toNat / 4) 0
      |>.extractLsb' (8 * (a.toNat % 4)) 8

theorem programSegmentForeach_visits_smallImage : ∃ reads,
    programSegmentForeach smallImage 0 ⟨0, 0, 0, 0, 0⟩ =
      .ok ([⟨116, 16, 32, 0x800020, 1⟩], reads) :=
  programSegmentForeach_visits smallImage 0 ⟨0, 0, 0, 0, 0⟩ (by decide)

/-! ## Headers outside the table -/

def ReadsOnlyTable (mem : Memory) (ptrProgramStart : Word) (uninitialised : ProgramSegment) : Prop :=
  ∀ visited reads, programSegmentForeach mem ptrProgramStart uninitialised = .ok (visited, reads) →
    ∀ index ∈ reads, index.toNat < (phnum mem ptrProgramStart).toNat

theorem reads_behind_table (magic : load32 mem ptrProgramStart = elfMagic)
    (uninitialised : ProgramSegment) : ∃ visited reads, ∃ index ∈ reads,
      programSegmentForeach mem ptrProgramStart uninitialised = .ok (visited, reads) ∧
        index.toNat = (phnum mem ptrProgramStart).toNat := by
  have bound := (phnum mem ptrProgramStart).isLt
  obtain ⟨reads, returned, read⟩ := programSegmentForeach_runs magic uninitialised
  refine ⟨_, reads, _, read, returned, ?_⟩
  rw [BitVec.toNat_ofNat]
  omega

/-- The type of the header behind the table is always read: the test of the index comes
after it. -/
theorem not_readsOnlyTable (mem : Memory) (ptrProgramStart : Word) (uninitialised : ProgramSegment)
    (magic : load32 mem ptrProgramStart = elfMagic) :
    ¬ReadsOnlyTable mem ptrProgramStart uninitialised := by
  intro inTable
  obtain ⟨visited, reads, index, read, returned, behind⟩ := reads_behind_table magic uninitialised
  have inside := inTable visited reads returned index read
  omega

theorem not_readsOnlyTable_smallImage : ¬ReadsOnlyTable smallImage 0 ⟨0, 0, 0, 0, 0⟩ :=
  not_readsOnlyTable smallImage 0 ⟨0, 0, 0, 0, 0⟩ (by decide)

/-- The image is a valid one, and its third header is read. -/
theorem readsOnlyTable_fails : ¬∀ mem ptrProgramStart uninitialised,
    load32 mem ptrProgramStart = elfMagic → ReadsOnlyTable mem ptrProgramStart uninitialised := by
  intro claimed
  have magic : load32 smallImage 0 = elfMagic := by decide
  obtain ⟨visited, reads, index, read, returned, behind⟩ :=
    reads_behind_table magic ⟨0, 0, 0, 0, 0⟩
  have inside := claimed smallImage 0 ⟨0, 0, 0, 0, 0⟩ magic visited reads returned index read
  omega

end FosV2
