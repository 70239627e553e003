import FosV2.BootLoader
import FosV2.TokenRuns

/-!
`strsplit` of `lib/string.c`, which cuts a command line into arguments in place: a separator
is overwritten with NUL when it is trimmed in front of the next argument. `argv` is an array
of the caller and, like `SPLIT_CHARS`, away from the string.
-/

namespace FosV2

open TokenRuns

/-- `WHITESPACE` of `kern/command_prompt.c` -/
def whitespace : List Byte := "\t\r\n ".toList.map char

def maxArguments : Nat := 16

def strchr : List Byte → Byte → Option (List Byte)
  | [], _ => none
  | first :: s, c => if first = c then some (first :: s) else strchr s c

structure Splitting where
  string : Word
  mem : Memory
  argv : Nat → Word
  argc : Nat

/-- A walk along a string that has not ended by then has gone once around the address space. -/
def stringFuel : Nat := 2 ^ 32

/-- `while (*string && strchr(SPLIT_CHARS, *string)) *string++ = 0;` -/
def Splitting.trim (splitChars : List Byte) : Splitting → Except Stop Splitting :=
  WhileLoop.run
    (fun st => decide (st.mem st.string ≠ 0) && (strchr splitChars (st.mem st.string)).isSome)
    (fun st => .ok { st with string := st.string + 1, mem := Function.update st.mem st.string 0 })
    .endlessLoop stringFuel

/-- `while (*string && !strchr(SPLIT_CHARS, *string)) string++;` -/
def Splitting.scan (splitChars : List Byte) : Splitting → Except Stop Splitting :=
  WhileLoop.run
    (fun st => decide (st.mem st.string ≠ 0) && !(strchr splitChars (st.mem st.string)).isSome)
    (fun st => .ok { st with string := st.string + 1 })
    .endlessLoop stringFuel

/-- `(argv)[(*argc)++] = string;` -/
def Splitting.save (st : Splitting) : Splitting :=
  { st with argv := Function.update st.argv st.argc st.string, argc := st.argc + 1 }

def Splitting.arguments (splitChars : List Byte) : Nat → Splitting → Except Stop (Splitting × Word)
  | 0, _ => .error .endlessLoop
  | fuel + 1, st => do
      let st ← st.trim splitChars
      if st.mem st.string = 0 then
        return ({ st with argv := Function.update st.argv st.argc 0 }, 1)
      else if st.argc = maxArguments - 1 then return (st, 0)
      else
        let st ← st.save.scan splitChars
        arguments splitChars fuel st

/-- Every turn takes an argument, so that there are no more turns than `MAX_ARGUMENTS`. -/
def strsplit (string : Word) (splitChars : List Byte) (argv : Nat → Word) (mem : Memory) :
    Except Stop (Splitting × Word) :=
  Splitting.arguments splitChars maxArguments ⟨string, mem, Function.update argv 0 0, 0⟩

def isSplitChar (splitChars : List Byte) (c : Byte) : Bool := decide (c ∈ splitChars)

theorem strchr_isSome (splitChars : List Byte) (c : Byte) :
    (strchr splitChars c).isSome = isSplitChar splitChars c := by
  induction splitChars with
  | nil => rfl
  | cons first s ih =>
      rw [strchr]
      by_cases here : first = c
      · simp [here, isSplitChar]
      · simp [here, Ne.symm here, ih, isSplitChar]

def trimmed (sep : Byte → Bool) (mem : Memory) (p : Word) (s : List Byte) (i : Nat) : Memory :=
  fun a => if (a - p).toNat < i ∧ inToken sep s (a - p).toNat = false then 0 else mem a

section Walks

variable {sep : Byte → Bool} {mem : Memory} {p : Word} {s : List Byte} {i : Nat}

theorem trimmed_zero : trimmed sep mem p s 0 = mem := by
  funext a
  rw [trimmed, if_neg fun inside => Nat.not_lt_zero _ inside.1]

theorem trimmed_apply {j : Nat} (small : j < 2 ^ 32) :
    trimmed sep mem p s i (p + BitVec.ofNat 32 j) =
      if j < i ∧ inToken sep s j = false then 0 else mem (p + BitVec.ofNat 32 j) := by
  rw [trimmed, AlignedWord.toNat_add_ofNat_sub p small]

theorem trimmed_here (small : i < 2 ^ 32) :
    trimmed sep mem p s i (p + BitVec.ofNat 32 i) = mem (p + BitVec.ofNat 32 i) := by
  rw [trimmed_apply small, if_neg fun inside => Nat.lt_irrefl i inside.1]

theorem trimmed_separator (small : i < 2 ^ 32) (separator : inToken sep s i = false) :
    Function.update (trimmed sep mem p s i) (p + BitVec.ofNat 32 i) 0 =
      trimmed sep mem p s (i + 1) := by
  funext a
  by_cases here : a = p + BitVec.ofNat 32 i
  · rw [here, Function.update_self, trimmed_apply small, if_pos ⟨i.lt_succ_self, separator⟩]
  · have elsewhere : (a - p).toNat ≠ i := by
      intro same
      exact here (by rw [← same, AlignedWord.add_ofNat_toNat_sub])
    rw [Function.update_of_ne here, trimmed, trimmed]
    congr 1
    simp only [eq_iff_iff, and_congr_left_iff]
    omega

theorem trimmed_token (inside : inToken sep s i = true) :
    trimmed sep mem p s (i + 1) = trimmed sep mem p s i := by
  funext a
  rw [trimmed, trimmed]
  congr 1
  simp only [eq_iff_iff, and_congr_left_iff]
  intro outside
  have elsewhere : (a - p).toNat ≠ i := by
    intro same
    rw [same, inside] at outside
    cases outside
  omega

theorem HoldsString.goesOn (held : HoldsString mem p s) (within : i ≤ s.length)
    (stop : Byte → Bool) : (decide (mem (p + BitVec.ofNat 32 i) ≠ 0) &&
      !stop (mem (p + BitVec.ofNat 32 i))) = inToken stop s i := by
  rw [inToken]
  rcases Nat.lt_or_eq_of_le within with inside | rfl
  · have found : s[i]? = some s[i] := List.getElem?_eq_getElem inside
    obtain ⟨read, some⟩ := held.bytes i _ found
    rw [read, found, decide_eq_true some]
    rfl
  · rw [held.nul, List.getElem?_eq_none (Nat.le_refl _)]
    rfl

variable {splitChars : List Byte} {argv : Nat → Word} {argc : Nat}

def walked (splitChars : List Byte) (mem : Memory) (p : Word) (s : List Byte) (i : Nat)
    (argv : Nat → Word) (argc : Nat) : Splitting :=
  ⟨p + BitVec.ofNat 32 i, trimmed (isSplitChar splitChars) mem p s i, argv, argc⟩

@[simp] theorem walked_argc : (walked splitChars mem p s i argv argc).argc = argc := rfl

theorem nextAddress (p : Word) (i : Nat) :
    p + BitVec.ofNat 32 i + 1 = p + BitVec.ofNat 32 (i + 1) := by
  rw [BitVec.ofNat_add, ← BitVec.add_assoc]
  rfl

theorem walked_reads (held : HoldsString mem p s) (within : i ≤ s.length) :
    (walked splitChars mem p s i argv argc).mem (walked splitChars mem p s i argv argc).string =
      mem (p + BitVec.ofNat 32 i) :=
  trimmed_here (Nat.lt_of_le_of_lt within held.length_lt)

theorem trim_walked (held : HoldsString mem p s) (within : i ≤ s.length) :
    (walked splitChars mem p s i argv argc).trim splitChars =
      .ok (walked splitChars mem p s
        (i + (runAt (fun c => !isSplitChar splitChars c) s i).length) argv argc) := by
  refine run_walk (fun j => walked splitChars mem p s j argv argc) within
    (fun j inside => ?_) (fun j separator => ?_) held.length_lt
  · rw [walked_reads held inside, strchr_isSome, ← held.goesOn inside, Bool.not_not]
  · have small := Nat.lt_trans (lt_length_of_inToken separator) held.length_lt
    rw [walked, walked, nextAddress, trimmed_separator small (inToken_not separator)]

theorem scan_walked (held : HoldsString mem p s) (within : i ≤ s.length) :
    (walked splitChars mem p s i argv argc).scan splitChars =
      .ok (walked splitChars mem p s
        (i + (runAt (isSplitChar splitChars) s i).length) argv argc) := by
  refine run_walk (fun j => walked splitChars mem p s j argv argc) within
    (fun j inside => ?_) (fun j ordinary => ?_) held.length_lt
  · rw [walked_reads held inside, strchr_isSome, ← held.goesOn inside]
  · rw [walked, walked, nextAddress, trimmed_token ordinary]

theorem HoldsString.token (held : HoldsString mem p s) {k : Nat} {t : List Byte}
    (run : MaximalRun sep s k t) (ended : k + t.length < i ∨ i = s.length) :
    HoldsString (trimmed sep mem p s i) (p + BitVec.ofNat 32 k) t := by
  have short := held.length_lt
  have address : ∀ j, p + BitVec.ofNat 32 k + BitVec.ofNat 32 j = p + BitVec.ofNat 32 (k + j) := by
    intro j
    rw [BitVec.add_assoc, ← BitVec.ofNat_add]
  constructor
  · intro j c found
    obtain ⟨inString, ordinary⟩ := run.elements j c found
    have inside := inToken_iff.mpr ⟨c, inString, ordinary⟩
    have below := lt_length_of_inToken inside
    rw [address, trimmed_apply (by omega), if_neg]
    · exact held.bytes _ c inString
    · rw [inside]
      rintro ⟨_, outside⟩
      cases outside
  · have behind := inToken_false_iff.mpr run.behind
    have within := run.within
    rw [address, trimmed_apply (by omega)]
    by_cases overwritten : k + t.length < i
    · rw [if_pos ⟨overwritten, behind⟩]
    · rw [if_neg fun both => overwritten both.1, show k + t.length = s.length by omega, held.nul]

theorem separator_of_trimmed_ne (within : i ≤ s.length) {a : Word}
    (changed : trimmed sep mem p s i a ≠ mem a) :
    ∃ j c, s[j]? = some c ∧ sep c = true ∧ a = p + BitVec.ofNat 32 j := by
  rw [trimmed] at changed
  split at changed
  next overwritten =>
    have inside : (a - p).toNat < s.length := Nat.lt_of_lt_of_le overwritten.1 within
    have found := List.getElem?_eq_getElem inside
    exact ⟨_, _, found, inToken_false_iff.mp overwritten.2 _ found,
      (AlignedWord.add_ofNat_toNat_sub p a).symm⟩
  next => exact absurd rfl changed

end Walks

structure IsSplit (splitChars : List Byte) (mem : Memory) (p : Word) (s : List Byte)
    (st : Splitting) (code : Word) : Prop where
  argc : st.argc = min (tokens (isSplitChar splitChars) s).length 15
  argv : ∀ j < st.argc, ∀ i t, (tokens (isSplitChar splitChars) s)[j]? = some (i, t) →
    st.argv j = p + BitVec.ofNat 32 i ∧ HoldsString st.mem (st.argv j) t
  code : code = if (tokens (isSplitChar splitChars) s).length ≤ 15 then 1 else 0
  changed : ∀ a, st.mem a ≠ mem a → ∃ i c, s[i]? = some c ∧ c ∈ splitChars ∧
    a = p + BitVec.ofNat 32 i

structure Saved (splitChars : List Byte) (p : Word) (s : List Byte) (i : Nat)
    (done : List (Nat × List Byte)) (argv : Nat → Word) : Prop where
  within : i ≤ s.length
  split : tokens (isSplitChar splitChars) s = done ++ tokensFrom (isSplitChar splitChars) s i
  room : done.length < maxArguments
  argv : ∀ j k t, done[j]? = some (k, t) → argv j = p + BitVec.ofNat 32 k

structure AtHead (splitChars : List Byte) (p : Word) (s : List Byte) (i : Nat)
    (done : List (Nat × List Byte)) (argv : Nat → Word) : Prop
    extends Saved splitChars p s i done argv where
  ended : ∀ k t, (k, t) ∈ done → k + t.length ≤ i
  boundary : i = 0 ∨ inToken (isSplitChar splitChars) s i = false

structure Trimmed (splitChars : List Byte) (p : Word) (s : List Byte) (i : Nat)
    (done : List (Nat × List Byte)) (argv : Nat → Word) : Prop
    extends Saved splitChars p s i done argv where
  ended : ∀ k t, (k, t) ∈ done → k + t.length < i ∨ i = s.length
  next : i < s.length → startsAt (isSplitChar splitChars) s i = true

section Loop

variable {splitChars : List Byte} {mem : Memory} {p : Word} {s : List Byte} {i : Nat}
  {done : List (Nat × List Byte)} {argv : Nat → Word}

theorem Saved.maximal (saved : Saved splitChars p s i done argv) {k : Nat} {t : List Byte}
    (member : (k, t) ∈ done) : MaximalRun (isSplitChar splitChars) s k t := by
  rw [← mem_tokens_iff, saved.split]
  exact List.mem_append_left _ member

theorem AtHead.trim (head : AtHead splitChars p s i done argv) :
    Trimmed splitChars p s (i + (runAt (fun c => !isSplitChar splitChars c) s i).length) done
      argv := by
  have most := runAt_length_le (fun c => !isSplitChar splitChars c) head.within
  have stopped := inToken_behind (fun c => !isSplitChar splitChars c) s i
  have separators : ∀ j, i ≤ j →
      j < i + (runAt (fun c => !isSplitChar splitChars c) s i).length →
        inToken (isSplitChar splitChars) s j = false := fun j above below =>
    inToken_not (inToken_runAt above below)
  generalize (runAt (fun c => !isSplitChar splitChars c) s i).length = count
    at most stopped separators ⊢
  have begun : count = 0 → i + count < s.length → i = 0 := by
    rintro rfl more
    rcases head.boundary with first | outside
    · exact first
    · rw [← Nat.add_zero i, inToken_of_not stopped more] at outside
      cases outside
  constructor
  · constructor
    · exact most
    · rw [head.split, tokensFrom_skip most]
      intro j above below
      rw [← Bool.not_eq_true, startsAt_iff, separators j above below]
      exact fun both => Bool.false_ne_true both.1
    · exact head.room
    · exact head.argv
  · intro k t member
    have before := head.ended k t member
    have positive := List.length_pos_iff.mpr (head.maximal member).nonempty
    omega
  · intro more
    refine startsAt_iff.mpr ⟨inToken_of_not stopped more, ?_⟩
    by_cases still : count = 0
    · have first := begun still more
      omega
    · exact .inr (separators _ (by omega) (by omega))

theorem Trimmed.count_of_end (behind : Trimmed splitChars p s i done argv) (last : i = s.length) :
    (tokens (isSplitChar splitChars) s).length = done.length := by
  rw [behind.split, last, tokensFrom_end, List.append_nil]

theorem Trimmed.count_of_more (behind : Trimmed splitChars p s i done argv)
    (more : i < s.length) : done.length < (tokens (isSplitChar splitChars) s).length := by
  rw [behind.split, tokensFrom_run (behind.next more), List.length_append, List.length_cons]
  omega

theorem Trimmed.isSplit (behind : Trimmed splitChars p s i done argv)
    (held : HoldsString mem p s) {argv' : Nat → Word} {code : Word}
    (kept : ∀ j < done.length, argv' j = argv j)
    (count : done.length = min (tokens (isSplitChar splitChars) s).length 15)
    (returned : code = if (tokens (isSplitChar splitChars) s).length ≤ 15 then 1 else 0) :
    IsSplit splitChars mem p s (walked splitChars mem p s i argv' done.length) code := by
  constructor
  · exact count
  · intro j below k t found
    change j < done.length at below
    rw [behind.split, List.getElem?_append_left below] at found
    have member := List.mem_of_getElem? found
    have saved : argv' j = p + BitVec.ofNat 32 k :=
      (kept j below).trans (behind.argv j k t found)
    refine ⟨saved, ?_⟩
    change HoldsString (trimmed (isSplitChar splitChars) mem p s i) (argv' j) t
    rw [saved]
    exact held.token (behind.maximal member) (behind.ended k t member)
  · exact returned
  · intro a changed
    obtain ⟨j, c, found, separator, address⟩ := separator_of_trimmed_ne behind.within changed
    exact ⟨j, c, found, of_decide_eq_true separator, address⟩

theorem Trimmed.save (behind : Trimmed splitChars p s i done argv) (more : i < s.length)
    (room : done.length + 1 < maxArguments) :
    AtHead splitChars p s (i + (runAt (isSplitChar splitChars) s i).length)
      (done ++ [(i, runAt (isSplitChar splitChars) s i)])
      (Function.update argv done.length (p + BitVec.ofNat 32 i)) := by
  have start := behind.next more
  have within := behind.within
  constructor
  · constructor
    · exact runAt_length_le _ within
    · rw [behind.split, tokensFrom_run start, List.append_assoc]
      rfl
    · rw [List.length_append]
      exact room
    · intro j k t found
      rcases Nat.lt_trichotomy j done.length with old | rfl | behind
      · rw [List.getElem?_append_left old] at found
        rw [Function.update_of_ne (Nat.ne_of_lt old)]
        exact behind.argv j k t found
      · rw [List.getElem?_concat_length] at found
        cases found
        exact Function.update_self ..
      · rw [List.getElem?_eq_none (by rw [List.length_append]; exact behind)] at found
        cases found
  · intro k t member
    rcases List.mem_append.mp member with old | new
    · have before := behind.ended k t old
      omega
    · cases List.mem_singleton.mp new
      exact Nat.le_refl _
  · exact .inr (inToken_behind _ s i)

theorem arguments_walked (held : HoldsString mem p s) (head : AtHead splitChars p s i done argv)
    {fuel : Nat} (enough : maxArguments ≤ fuel + done.length) :
    ∃ st code, (walked splitChars mem p s i argv done.length).arguments splitChars fuel =
      .ok (st, code) ∧ IsSplit splitChars mem p s st code := by
  induction fuel generalizing i done argv with
  | zero =>
      have room := head.room
      omega
  | succ fuel ih =>
      have behind := head.trim
      have room := head.room
      rw [Splitting.arguments, trim_walked held head.within, ok_bind]
      generalize i + (runAt (fun c => !isSplitChar splitChars c) s i).length = i at behind ⊢
      rw [walked_reads held behind.within, walked_argc]
      by_cases more : i < s.length
      · obtain ⟨read, some⟩ := held.bytes i _ (List.getElem?_eq_getElem more)
        rw [if_neg (read ▸ some)]
        by_cases full : done.length = maxArguments - 1
        · have fifteen : done.length = 15 := full
          have longer := behind.count_of_more more
          rw [if_pos full]
          refine ⟨_, _, rfl, behind.isSplit held (fun _ _ => rfl) (by omega) ?_⟩
          rw [if_neg (by omega)]
        · have saved : (walked splitChars mem p s i argv done.length).save =
              walked splitChars mem p s i
                (Function.update argv done.length (p + BitVec.ofNat 32 i))
                (done ++ [(i, runAt (isSplitChar splitChars) s i)]).length := by
            rw [List.length_append]
            rfl
          rw [if_neg full, saved, scan_walked held behind.within, ok_bind]
          apply ih (behind.save more (by omega))
          rw [List.length_append, List.length_singleton]
          omega
      · have last : i = s.length := by
          have within := behind.within
          omega
        have fifteen : done.length ≤ 15 := Nat.le_of_lt_succ room
        have count := behind.count_of_end last
        rw [if_pos (last ▸ held.nul)]
        refine ⟨_, _, rfl, behind.isSplit held (fun j below => ?_) (by omega) ?_⟩
        · exact Function.update_of_ne (Nat.ne_of_lt below) ..
        · rw [if_pos (by omega)]

end Loop

theorem AtHead.start (splitChars : List Byte) (p : Word) (s : List Byte) (argv : Nat → Word) :
    AtHead splitChars p s 0 [] argv := by
  constructor
  · constructor
    · exact Nat.zero_le _
    · rfl
    · exact Nat.zero_lt_succ _
    · intro j k t found
      cases found
  · intro k t member
    cases member
  · exact .inl rfl

theorem strsplit_walked (splitChars : List Byte) (argv : Nat → Word) (mem : Memory) (p : Word)
    (s : List Byte) : strsplit p splitChars argv mem =
      (walked splitChars mem p s 0 (Function.update argv 0 0) 0).arguments splitChars
        maxArguments := by
  rw [strsplit, walked, trimmed_zero, BitVec.ofNat_eq_ofNat, BitVec.add_zero]

/-- `strsplit` returns, and the arguments are the first tokens of the string. -/
theorem strsplit_isSplit (splitChars : List Byte) (argv : Nat → Word) {mem : Memory} {p : Word}
    {s : List Byte} (held : HoldsString mem p s) : ∃ st code,
      strsplit p splitChars argv mem = .ok (st, code) ∧ IsSplit splitChars mem p s st code := by
  rw [strsplit_walked splitChars argv mem p s]
  exact arguments_walked held (.start splitChars p s _) (Nat.le_refl _)

theorem strsplit_isSplit_ap : ∃ st, strsplit 0 whitespace (fun _ => 0) (stringMemory 0
      (" ap\t0x1000 ".toList.map char)) = .ok (st, 1) ∧ st.argc = 2 ∧
    HoldsString st.mem (st.argv 1) ("0x1000".toList.map char) := by
  obtain ⟨st, code, returned, split⟩ := strsplit_isSplit whitespace (fun _ => 0)
    (holdsString_stringMemory 0 (s := " ap\t0x1000 ".toList.map char) (by decide) (by decide))
  have arguments : tokens (isSplitChar whitespace) (" ap\t0x1000 ".toList.map char) =
      [(1, "ap".toList.map char), (4, "0x1000".toList.map char)] := by decide
  obtain ⟨argc, argv, one, _⟩ := split
  rw [arguments] at argc argv one
  have success : code = 1 := one
  rw [success] at returned
  refine ⟨st, returned, argc, ?_⟩
  exact (argv 1 (argc ▸ Nat.one_lt_two) 4 _ rfl).2

end FosV2
