import FosV2.StabContaining

/-!
`debuginfo_eip` of `kern/kdebug.c`, and what it takes for a function: the index that the search
for `N_FUN` leaves, which is that of another entry where the search should have reported that
there is none.
-/

namespace FosV2

open SparseBisection StabSearch

inductive DebugText where
  | unknown
  | inTable (address : Word)
  deriving DecidableEq, Repr

structure Eipdebuginfo where
  eipFile : DebugText
  eipLine : Int
  eipFnName : DebugText
  eipFnNamelen : Int
  eipFnAddr : Word
  eipFnNarg : Int
  deriving DecidableEq, Repr

/-- `struct UserStabData`, with `stab_end - stabs` for the end of the table. -/
structure StabData where
  stabs : Stabs
  count : Int
  stabstr : Word
  stabstrEnd : Word

/-- `kernel` is what the linker's symbols bound, `user` what lies at `USTABDATA`. -/
structure DebugTables where
  kernel : StabData
  user : Option StabData
  bytes : Word → Option Byte

def DebugTables.stabsFor (tables : DebugTables) (addr : Word) : Except StabStop StabData :=
  if addr ≥ userLimit then .ok tables.kernel
  else
    match tables.user with
    | some data => .ok data
    | none => .error .noUserStabData

def readByte (bytes : Word → Option Byte) (address : Word) : Except StabStop Byte :=
  match bytes address with
  | some byte => .ok byte
  | none => .error (.unreadableByte address)

/-- "String table validity checks" -/
def StabData.stringsValid (data : StabData) (bytes : Word → Option Byte) : Except StabStop Bool :=
  if data.stabstrEnd ≤ data.stabstr then .ok false
  else do
    let last ← readByte bytes (data.stabstrEnd - 1)
    return last = 0

/-- `stabstr + stab.n_strx`, "but check bounds just in case" -/
def StabData.text (data : StabData) (stab : Stab) (default : DebugText) : DebugText :=
  if stab.nStrx < data.stabstrEnd - data.stabstr then .inTable (data.stabstr + stab.nStrx)
  else default

def strfind (bytes : Word → Option Byte) (c : Byte) : Nat → Word → Except StabStop Word
  | 0, _ => .error .endlessLoop
  | fuel + 1, s => do
      let byte ← readByte bytes s
      if byte = 0 then return s
      else if byte = c then return s
      else strfind bytes c fuel (s + 1)

/-- `strfind(name, ':') - name` -/
def nameLength (bytes : Word → Option Byte) : DebugText → Except StabStop Int
  | .unknown => .ok 9
  | .inTable name => do
      let stop ← strfind bytes (char ':') (2 ^ 32) name
      return (stop - name).toInt

/-- The loop back to the filename stab, with `lline + 1 - lfile` as the first argument. -/
def filenameStab (stabs : Stabs) : Nat → Int → Except StabStop Int
  | 0, lline => .ok lline
  | steps + 1, lline => do
      let stab ← stabs.entry lline
      if stab.hasType nSol ∨ (stab.hasType nSo ∧ stab.nValue ≠ 0) then return lline
      else filenameStab stabs steps (lline - 1)

structure FileFound where
  data : StabData
  lfile : Int
  rfile : Int

/-- What `debuginfo_eip` does up to "Search within that file's stabs", or `none` where it has
returned -1 by then. -/
def findFile (tables : DebugTables) (addr : Word) : Except StabStop (Option FileFound) := do
  let data ← tables.stabsFor addr
  let valid ← data.stringsValid tables.bytes
  if ¬valid then return none
  else
    let (lfile, rfile) ← stabBinsearch data.stabs 0 (data.count - 1) nSo addr
    if lfile = 0 then return none
    else return some ⟨data, lfile, rfile⟩

def FileFound.findFunction (file : FileFound) (addr : Word) : Except StabStop (Int × Int) :=
  stabBinsearch file.data.stabs file.lfile file.rfile nFun addr

def FileFound.fillInfo (file : FileFound) (bytes : Word → Option Byte) (fnName : DebugText)
    (fnAddr : Word) (lline : Int) : Except StabStop Eipdebuginfo := do
  let namelen ← nameLength bytes fnName
  let lline ← filenameStab file.data.stabs (lline + 1 - file.lfile).toNat lline
  let fileName ←
    if file.lfile ≤ lline then do
      let stab ← file.data.stabs.entry lline
      pure (file.data.text stab .unknown)
    else pure .unknown
  return ⟨fileName, 0, fnName, namelen, fnAddr, 0⟩

def debuginfoEip (tables : DebugTables) (addr : Word) : Except StabStop (Int × Eipdebuginfo) := do
  match ← findFile tables addr with
  | none => return (-1, ⟨.unknown, 0, .unknown, 9, addr, 0⟩)
  | some file =>
      let (lfun, rfun) ← file.findFunction addr
      if lfun ≤ rfun then
        let stab ← file.data.stabs.entry lfun
        let info ← file.fillInfo tables.bytes (file.data.text stab .unknown) stab.nValue lfun
        return (0, info)
      else
        let info ← file.fillInfo tables.bytes .unknown addr file.lfile
        return (0, info)

/-! The search for the source file leaves a range of the table, or only the place before it. -/

theorem findFile_some {tables : DebugTables} {addr : Word} {file : FileFound}
    (found : findFile tables addr = .ok (some file)) :
    stabBinsearch file.data.stabs 0 (file.data.count - 1) nSo addr =
        .ok (file.lfile, file.rfile) ∧ file.lfile ≠ 0 := by
  simp only [findFile, bind, Except.bind] at found
  split at found
  · cases found
  split at found
  · cases found
  split at found
  · cases found
  split at found
  · cases found
  next data _ _ _ _ _ range search =>
    split at found
    · cases found
    next notFirst =>
      cases found
      exact ⟨search, notFirst⟩

theorem findFile_range {tables : DebugTables} {addr : Word} {file : FileFound}
    (found : findFile tables addr = .ok (some file))
    (table : ∀ i, 0 ≤ i → i < file.data.count → (file.data.stabs i).isSome) :
    -1 ≤ file.lfile ∧ file.lfile ≤ file.rfile ∧ file.rfile < file.data.count ∧
      (file.lfile = -1 → file.rfile = -1) := by
  obtain ⟨search, notFirst⟩ := findFile_some found
  by_cases empty : file.data.count - 1 < 0
  · rw [stabBinsearch_empty _ _ _ empty] at search
    exact absurd (Prod.mk.inj (Except.ok.inj search)).1.symm notFirst
  · obtain ⟨final, _, stopped, searching, returns⟩ :=
      stabBinsearch_spec nSo addr (fun i above upto => table i above (by omega))
        (show 0 ≤ file.data.count - 1 + 1 by omega)
    rw [returns _ fun _ _ _ => rfl] at search
    have crossed := searching.crossed stopped
    have low := searching.leftLow
    have high := searching.leftHigh
    have bound := searching.high
    have result := Except.ok.inj search
    cases any : final.anyMatches with
    | false =>
        obtain ⟨least, _⟩ := searching.noMatch any
        simp only [StabSearch.result, any, Bool.false_eq_true, if_false, least] at result
        exact absurd (Prod.mk.inj result).1.symm notFirst
    | true =>
        rw [StabSearch.result, any, if_pos rfl] at result
        obtain ⟨left, right⟩ := Prod.mk.inj result
        omega

/-! What the search for the function tells. -/

def ReportsAbsence (stabs : Stabs) (type L R : Int) (addr : Word) : Prop :=
  (∀ j v, L ≤ j → j ≤ R → valueAt stabs type j = some v → addr.toNat < v) →
    ∃ found, stabBinsearch stabs L R type addr = .ok found ∧ found.2 < found.1

theorem reportsAbsence_iff {stabs : Stabs} {type L R : Int} {addr : Word}
    (readable : Readable stabs L R) :
    ReportsAbsence stabs type L R addr ↔
      (∃ j v, L ≤ j ∧ j ≤ R ∧ valueAt stabs type j = some v ∧ v ≤ addr.toNat) ∨
        ∀ j, L ≤ j → j ≤ R → valueAt stabs type j = none := by
  by_cases empty : R < L
  · refine ⟨fun _ => Or.inr fun j above upto => by omega, fun _ _ => ?_⟩
    exact ⟨_, stabBinsearch_empty stabs type addr empty, by simp only; omega⟩
  · obtain ⟨final, _, stopped, searching, returns⟩ :=
      stabBinsearch_spec type addr readable (show L ≤ R + 1 by omega)
    have search := returns stabs fun _ _ _ => rfl
    have absent := searching.absent_iff stopped
    constructor
    · intro reports
      by_cases reached : ∃ j v, L ≤ j ∧ j ≤ R ∧ valueAt stabs type j = some v ∧ v ≤ addr.toNat
      · exact Or.inl reached
      · obtain ⟨found, search', crossed⟩ := reports fun j v above upto marked =>
          Nat.lt_of_not_le fun near => reached ⟨j, v, above, upto, marked, near⟩
        rw [search] at search'
        cases search'
        exact Or.inr (absent.mp crossed)
    · rintro (⟨j, v, above, upto, marked, near⟩ | unmarked) beyond
      · exact absurd (beyond j v above upto marked) (Nat.not_lt.mpr near)
      · exact ⟨final.result, search, absent.mpr unmarked⟩

def StabData.FunctionAt (data : StabData) (addr : Word) (i : Int) : Prop :=
  0 ≤ i ∧ i < data.count ∧ ∃ v, valueAt data.stabs nFun i = some v ∧ v ≤ addr.toNat

def FunctionBranchRight (tables : DebugTables) (addr : Word) : Prop :=
  ∀ file lfun rfun, findFile tables addr = .ok (some file) →
    file.findFunction addr = .ok (lfun, rfun) → lfun ≤ rfun → file.data.FunctionAt addr lfun

/-- The source file has no function at all; or it has one that does not lie above the address, and
an entry at the address is kept, or is dropped for another such one right before it; or all its
functions lie above the address, the first one opens the file, and such an entry is before it. -/
def FileFound.Settles (file : FileFound) (addr : Word) : Prop :=
  (∀ j, file.lfile ≤ j → j ≤ file.rfile → valueAt file.data.stabs nFun j = none) ∨
  ((∃ j v, file.lfile ≤ j ∧ j ≤ file.rfile ∧ valueAt file.data.stabs nFun j = some v ∧
      v ≤ addr.toNat) ∧
    ((0 ≤ file.lfile ∧
        KeepsMatch (valueAt file.data.stabs nFun) file.lfile file.rfile addr.toNat) ∨
      ∃ m, file.lfile ≤ m ∧ m ≤ file.rfile ∧
        valueAt file.data.stabs nFun m = some addr.toNat ∧ 2 ^ 32 ≤ addr.toNat + 4 ∧
        file.data.FunctionAt addr (m - 1))) ∨
  ((∀ j v, file.lfile ≤ j → j ≤ file.rfile → valueAt file.data.stabs nFun j = some v →
      addr.toNat < v) ∧
    (∃ v, valueAt file.data.stabs nFun file.lfile = some v) ∧
    file.data.FunctionAt addr (file.lfile - 1))

theorem functionBranchRight_of_found {tables : DebugTables} {addr : Word} {file : FileFound}
    (found : findFile tables addr = .ok (some file)) :
    FunctionBranchRight tables addr ↔
      ∀ lfun rfun, file.findFunction addr = .ok (lfun, rfun) → lfun ≤ rfun →
        file.data.FunctionAt addr lfun := by
  constructor
  · intro right lfun rfun
    exact right file lfun rfun found
  · intro right file' lfun rfun found'
    rw [found] at found'
    cases found'
    exact right lfun rfun

section

variable {tables : DebugTables} {addr : Word} {file : FileFound}

theorem FileFound.findFunction_unmarked (range : file.lfile ≤ file.rfile)
    (below : file.rfile < file.data.count) (least : -1 ≤ file.lfile)
    (before : file.lfile = -1 → file.rfile = -1)
    (table : ∀ i, 0 ≤ i → i < file.data.count → (file.data.stabs i).isSome)
    (unmarked : ∀ j, file.lfile ≤ j → j ≤ file.rfile → valueAt file.data.stabs nFun j = none)
    {found : Int × Int} (search : file.findFunction addr = .ok found) : found.2 < found.1 := by
  rw [findFunction] at search
  by_cases readable : Readable file.data.stabs file.lfile file.rfile
  · obtain ⟨final, _, stopped, searching, returns⟩ :=
      stabBinsearch_spec nFun addr readable (show file.lfile ≤ file.rfile + 1 by omega)
    rw [returns _ fun _ _ _ => rfl] at search
    cases search
    exact (searching.absent_iff stopped).mpr unmarked
  · -- Only the place before the table may be unreadable, and then the search reads it.
    have outside : file.lfile = -1 := by
      by_contra inside
      exact readable fun i above upto => table i (by omega) (by omega)
    have last := before outside
    cases entry : file.data.stabs (-1) with
    | some stab =>
        refine (readable fun i above upto => ?_).elim
        have here : i = -1 := by omega
        rw [here, entry]
        rfl
    | none =>
        rw [outside, last, stabBinsearch_unreadable entry] at search
        cases search

theorem FileFound.settles_near (readable : Readable file.data.stabs file.lfile file.rfile)
    (increasing : Increasing (valueAt file.data.stabs nFun) file.lfile file.rfile)
    (least : -1 ≤ file.lfile) (below : file.rfile < file.data.count)
    (before : file.lfile = -1 → file.rfile = -1) {i : Int} {v : Nat} (above : file.lfile ≤ i)
    (upto : i ≤ file.rfile) (marked : valueAt file.data.stabs nFun i = some v)
    (near : v ≤ addr.toNat) :
    ∃ found, file.findFunction addr = .ok found ∧
      (file.data.FunctionAt addr found.1 ↔ file.Settles addr) := by
  obtain ⟨found, search, outcome⟩ :=
    stabBinsearch_outcome readable increasing above upto marked near
  refine ⟨found, search, ?_⟩
  have settles : file.Settles addr ↔
      (0 ≤ file.lfile ∧
        KeepsMatch (valueAt file.data.stabs nFun) file.lfile file.rfile addr.toNat) ∨
      ∃ m, file.lfile ≤ m ∧ m ≤ file.rfile ∧ valueAt file.data.stabs nFun m = some addr.toNat ∧
        2 ^ 32 ≤ addr.toNat + 4 ∧ file.data.FunctionAt addr (m - 1) := by
    constructor
    · rintro (unmarked | ⟨_, kept⟩ | ⟨beyond, _⟩)
      · rw [unmarked i above upto] at marked
        cases marked
      · exact kept
      · exact absurd (beyond i v above upto marked) (Nat.not_lt.mpr near)
    · exact fun kept => Or.inr (Or.inl ⟨⟨i, v, above, upto, marked, near⟩, kept⟩)
  rw [settles]
  rcases outcome with ⟨keeps, containing⟩ | ⟨leaves, m, first, last, match_, elsewhere⟩
  · have low := containing.low
    have region := containing.region
    have high := containing.high
    constructor
    · rintro ⟨inTable, _⟩
      exact Or.inl ⟨by omega, keeps⟩
    · rintro (⟨inTable, _⟩ | ⟨m, first, last, match_, wraps, _⟩)
      · exact ⟨by omega, by omega, containing.starts⟩
      · obtain ⟨_, _, small, _⟩ := keeps m first last match_
        omega
  · rcases elsewhere with ⟨wraps, dropped⟩ | ⟨small, after, inRange⟩
    · rw [dropped]
      constructor
      · exact fun function => Or.inr ⟨m, first, last, match_, wraps, function⟩
      · rintro (⟨_, keeps⟩ | ⟨m', first', last', match', _, function⟩)
        · exact absurd keeps leaves
        · rwa [increasing.index_unique first' last' first last match' match_] at function
    · constructor
      · rintro ⟨_, _, w, function, notAbove⟩
        have further := increasing m found.1 _ w first after inRange match_ function
        omega
      · rintro (⟨_, keeps⟩ | ⟨_, _, _, _, wraps, _⟩)
        · exact absurd keeps leaves
        · omega

theorem FileFound.settles_above (readable : Readable file.data.stabs file.lfile file.rfile)
    (increasing : Increasing (valueAt file.data.stabs nFun) file.lfile file.rfile)
    (beyond : ∀ j v, file.lfile ≤ j → j ≤ file.rfile →
      valueAt file.data.stabs nFun j = some v → addr.toNat < v)
    {i : Int} {v : Nat} (above : file.lfile ≤ i) (upto : i ≤ file.rfile)
    (marked : valueAt file.data.stabs nFun i = some v) :
    ∃ found, file.findFunction addr = .ok found ∧
      (file.data.FunctionAt addr found.1 ↔ file.Settles addr) := by
  obtain ⟨f, w, low, high, unmarked, first, search⟩ :=
    stabBinsearch_above readable increasing beyond above upto marked
  refine ⟨_, search, ?_⟩
  have settles : file.Settles addr ↔ (∃ v, valueAt file.data.stabs nFun file.lfile = some v) ∧
      file.data.FunctionAt addr (file.lfile - 1) := by
    constructor
    · rintro (none | ⟨⟨j, u, above', upto', entry, near⟩, _⟩ | ⟨_, opens⟩)
      · rw [none i above upto] at marked
        cases marked
      · exact absurd (beyond j u above' upto' entry) (Nat.not_lt.mpr near)
      · exact opens
    · exact fun opens => Or.inr (Or.inr ⟨beyond, opens⟩)
  rw [settles]
  by_cases opens : f = file.lfile
  · subst opens
    have left : min file.lfile (file.lfile - 1) = file.lfile - 1 := Int.min_eq_right (by omega)
    rw [left]
    exact ⟨fun function => ⟨⟨w, first⟩, function⟩, fun settled => settled.2⟩
  · -- The search leaves the first index of the file, which is not that of a function.
    have left : min file.lfile (f - 1) = file.lfile := Int.min_eq_left (by omega)
    have none := unmarked file.lfile (Int.le_refl _) (by omega)
    rw [left]
    constructor
    · rintro ⟨_, _, u, function, _⟩
      rw [none] at function
      cases function
    · rintro ⟨⟨u, function⟩, _⟩
      rw [none] at function
      cases function

theorem functionBranchRight_iff (found : findFile tables addr = .ok (some file))
    (table : ∀ i, 0 ≤ i → i < file.data.count → (file.data.stabs i).isSome)
    (increasing : Increasing (valueAt file.data.stabs nFun) file.lfile file.rfile) :
    FunctionBranchRight tables addr ↔ file.Settles addr := by
  obtain ⟨least, range, below, before⟩ := findFile_range found table
  rw [functionBranchRight_of_found found]
  by_cases unmarked : ∀ j, file.lfile ≤ j → j ≤ file.rfile → valueAt file.data.stabs nFun j = none
  · refine ⟨fun _ => Or.inl unmarked, fun _ lfun rfun search region => ?_⟩
    have absent := FileFound.findFunction_unmarked range below least before table unmarked search
    simp only at absent
    omega
  · obtain ⟨i, v, above, upto, marked⟩ : ∃ i v, file.lfile ≤ i ∧ i ≤ file.rfile ∧
        valueAt file.data.stabs nFun i = some v := by
      by_contra none
      refine unmarked fun j above upto => ?_
      cases entry : valueAt file.data.stabs nFun j with
      | none => rfl
      | some v => exact absurd ⟨j, v, above, upto, entry⟩ none
    have readable : Readable file.data.stabs file.lfile file.rfile := by
      intro j above' upto'
      by_cases inside : 0 ≤ j
      · exact table j inside (by omega)
      · obtain ⟨stab, entry, _⟩ := entry_of_valueAt marked
        have here : j = i := by omega
        rw [here, entry]
        rfl
    obtain ⟨found, search, settled⟩ : ∃ found, file.findFunction addr = .ok found ∧
        (file.data.FunctionAt addr found.1 ↔ file.Settles addr) := by
      by_cases near : ∃ j w, file.lfile ≤ j ∧ j ≤ file.rfile ∧
          valueAt file.data.stabs nFun j = some w ∧ w ≤ addr.toNat
      · obtain ⟨j, w, above', upto', entry, notAbove⟩ := near
        exact FileFound.settles_near readable increasing least below before above' upto' entry
          notAbove
      · refine FileFound.settles_above readable increasing ?_ above upto marked
        exact fun j w above' upto' entry =>
          Nat.lt_of_not_le fun notAbove => near ⟨j, w, above', upto', entry, notAbove⟩
    rw [← settled, search]
    have region : found.1 ≤ found.2 := by
      obtain ⟨final, _, stopped, searching, returns⟩ :=
        stabBinsearch_spec nFun addr readable (show file.lfile ≤ file.rfile + 1 by omega)
      rw [FileFound.findFunction, returns _ fun _ _ _ => rfl] at search
      cases search
      refine Int.not_lt.mp fun absent => unmarked ?_
      exact (searching.absent_iff stopped).mp absent
    exact ⟨fun right => right _ _ rfl region, fun function lfun rfun same _ =>
      (Prod.mk.inj (Except.ok.inj same)).1 ▸ function⟩

theorem FileFound.fillInfo_fnAddr {bytes : Word → Option Byte} {fnName : DebugText}
    {fnAddr : Word} {lline : Int} {info : Eipdebuginfo}
    (filled : file.fillInfo bytes fnName fnAddr lline = .ok info) : info.eipFnAddr = fnAddr := by
  simp only [fillInfo, bind, Except.bind] at filled
  split at filled
  · cases filled
  split at filled
  · cases filled
  split at filled
  · split at filled
    · cases filled
    · cases filled
      rfl
  · cases filled
    rfl

/-- Where its function branch is right, `debuginfo_eip` names no function above the address. -/
theorem debuginfoEip_fnAddr_le (right : FunctionBranchRight tables addr) {code : Int}
    {info : Eipdebuginfo} (returned : debuginfoEip tables addr = .ok (code, info)) :
    info.eipFnAddr.toNat ≤ addr.toNat := by
  cases found : findFile tables addr with
  | error stop =>
      rw [debuginfoEip, found] at returned
      cases returned
  | ok file? =>
      cases file? with
      | none =>
          rw [debuginfoEip, found] at returned
          cases returned
          exact Nat.le_refl _
      | some file =>
          cases search : file.findFunction addr with
          | error stop =>
              simp only [debuginfoEip, found, search, bind, Except.bind] at returned
              cases returned
          | ok range =>
              simp only [debuginfoEip, found, search, bind, Except.bind] at returned
              by_cases region : range.1 ≤ range.2
              · obtain ⟨_, _, v, function, notAbove⟩ :=
                  right file range.1 range.2 found search region
                obtain ⟨stab, entry, value⟩ := entry_of_valueAt function
                rw [if_pos region, Stabs.entry_eq entry] at returned
                simp only at returned
                split at returned
                · cases returned
                next info' filled =>
                  cases returned
                  rw [FileFound.fillInfo_fnAddr filled, value]
                  exact notAbove
              · rw [if_neg region] at returned
                split at returned
                · cases returned
                next info' filled =>
                  cases returned
                  rw [FileFound.fillInfo_fnAddr filled]

/-- Absence is reported just where the type is absent, and the function branch is right just where
the function search settles. -/
theorem absence_and_function {stabs : Stabs} {type L R : Int} {searched : Word}
    (readable : Readable stabs L R) (found : findFile tables addr = .ok (some file))
    (table : ∀ i, 0 ≤ i → i < file.data.count → (file.data.stabs i).isSome)
    (functions : Increasing (valueAt file.data.stabs nFun) file.lfile file.rfile) :
    (ReportsAbsence stabs type L R searched ↔
      (∃ j v, L ≤ j ∧ j ≤ R ∧ valueAt stabs type j = some v ∧ v ≤ searched.toNat) ∨
        ∀ j, L ≤ j → j ≤ R → valueAt stabs type j = none) ∧
    (FunctionBranchRight tables addr ↔ file.Settles addr) :=
  ⟨reportsAbsence_iff readable, functionBranchRight_iff found table functions⟩

end

/-! A source file with a function that starts above its first instruction. -/

def lateFunction : Stabs :=
  .ofList [⟨1, 0, 3⟩, ⟨1, BitVec.ofInt 8 nSo, 0xF0100000⟩, ⟨9, BitVec.ofInt 8 nFun, 0xF0100040⟩]

def lateTables : DebugTables where
  kernel := ⟨lateFunction, 3, 0xF0110000, 0xF0110010⟩
  user := none
  bytes address := if address = 0xF011000F then some 0 else some (char 'a')

theorem lateFunction_table (i : Int) (above : 0 ≤ i) (below : i < 3) :
    (lateFunction i).isSome := by
  rcases (by omega : i = 0 ∨ i = 1 ∨ i = 2) with rfl | rfl | rfl <;> rfl

theorem lateFunction_increasing : Increasing (valueAt lateFunction nFun) 1 2 := by
  intro i j v w above before below first _
  have here : i = 1 := by omega
  rw [here] at first
  cases first

theorem lateTables_file (addr : Word) (inFile : addr = 0xF0100020 ∨ addr = 0xF0100050) :
    findFile lateTables addr = .ok (some ⟨lateTables.kernel, 1, 2⟩) := by
  have kernel : lateTables.stabsFor addr = .ok lateTables.kernel := by
    rcases inFile with rfl | rfl <;> rfl
  have valid : lateTables.kernel.stringsValid lateTables.bytes = .ok true := by decide
  have range : stabBinsearch lateTables.kernel.stabs 0 (lateTables.kernel.count - 1) nSo addr =
      .ok (1, 2) := by
    rcases inFile with rfl | rfl <;> decide
  simp only [findFile, kernel, valid, range, bind, Except.bind]
  rfl

/-- The entry of the file alone has no function, and behind the function there is one. -/
theorem absence_and_function_lateTables : ReportsAbsence lateFunction nFun 1 1 0xF0100050 ∧
    FunctionBranchRight lateTables 0xF0100050 := by
  have readable : Readable lateFunction 1 1 :=
    fun i above upto => lateFunction_table i (by omega) (by omega)
  have source : valueAt lateFunction nFun 1 = none := by decide
  have function : valueAt lateFunction nFun 2 = some 0xF0100040 := by decide
  have keeps : KeepsMatch (valueAt lateFunction nFun) 1 2 0xF0100050 := by
    intro m above upto match_
    rcases (by omega : m = 1 ∨ m = 2) with rfl | rfl
    · rw [source] at match_
      cases match_
    · rw [function] at match_
      cases match_
  have settles : FileFound.Settles ⟨lateTables.kernel, 1, 2⟩ 0xF0100050 :=
    Or.inr (Or.inl ⟨⟨2, _, by decide, by decide, function, by decide⟩, Or.inl ⟨by decide, keeps⟩⟩)
  have none : ∀ j, 1 ≤ j → j ≤ 1 → valueAt lateFunction nFun j = none := by
    intro j above upto
    rw [Int.le_antisymm upto above]
    exact source
  obtain ⟨absence, branch⟩ := @absence_and_function lateTables 0xF0100050 _ lateFunction nFun 1 1
    0xF0100050 readable (lateTables_file _ (Or.inr rfl)) lateFunction_table lateFunction_increasing
  exact ⟨absence.mpr (Or.inr none), branch.mpr settles⟩

/-- Below the function the search takes the entry of the file for one. -/
theorem not_absence_lateFunction :
    Readable lateFunction 1 2 ∧ Increasing (valueAt lateFunction nFun) 1 2 ∧
      ¬ReportsAbsence lateFunction nFun 1 2 0xF0100020 ∧
      ¬FunctionBranchRight lateTables 0xF0100020 := by
  have search : stabBinsearch lateFunction 1 2 nFun 0xF0100020 = .ok (1, 1) := by decide
  refine ⟨fun i above upto => lateFunction_table i (by omega) (by omega),
    lateFunction_increasing, fun reports => ?_, fun right => ?_⟩
  · have beyond : ∀ j v, 1 ≤ j → j ≤ 2 → valueAt lateFunction nFun j = some v →
        (0xF0100020 : Word).toNat < v := by
      intro j v above upto entry
      rcases (by omega : j = 1 ∨ j = 2) with rfl | rfl
      · cases entry
      · rw [← Option.some.inj entry]
        decide
    obtain ⟨found, search', absent⟩ := reports beyond
    rw [search] at search'
    cases search'
    exact absurd absent (by decide)
  · obtain ⟨_, _, v, function, _⟩ :=
      right ⟨lateTables.kernel, 1, 2⟩ 1 1 (lateTables_file _ (Or.inl rfl)) search (Int.le_refl 1)
    cases function

end FosV2
