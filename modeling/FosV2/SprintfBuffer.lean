import FosV2.PrintFormat

/-!
`vsnprintf` of `lib/printfmt.c`. The bound is kept by the callback, one character at a time:
the characters that find the buffer full are counted and dropped, and the place of the NUL is
where the pointer has stopped. The strings that the format reads are not in the buffer.
-/

namespace FosV2

structure SprintBuf where
  buf : Word
  ebuf : Word
  cnt : Word

def sprintputch (putdat : SprintBuf × (Word → Byte)) (ch : Word) : SprintBuf × (Word → Byte) :=
  let b := { putdat.1 with cnt := putdat.1.cnt + 1 }
  if b.buf < b.ebuf then
    ({ b with buf := b.buf + 1 }, Function.update putdat.2 b.buf (ch.setWidth 8))
  else (b, putdat.2)

def vsnprintf (load : Word → Except Stop Byte) (buf n : Word) (fmt : List Byte) (ap : Arguments)
    (memory : Word → Byte) : Except Stop (Word × (Word → Byte)) :=
  let b : SprintBuf := ⟨buf, buf + n - 1, 0⟩
  if buf = 0 ∨ n.toInt < 1 then .ok (-eInval, memory)
  else do
    let (b, memory) ← vprintfmt sprintputch load fmt ap (b, memory)
    return (b.cnt, Function.update memory b.buf 0)

structure BufferOf (buf n : Word) : Prop where
  notNull : buf ≠ 0
  nonempty : 1 ≤ n.toInt
  inMemory : buf.toNat + n.toNat ≤ 2 ^ 32

namespace BufferOf

variable {buf n : Word}

theorem size_pos (room : BufferOf buf n) : 0 < n.toNat := by
  have positive := room.nonempty
  rw [BitVec.toInt_eq_toNat_cond] at positive
  split at positive <;> omega

theorem last_toNat (room : BufferOf buf n) : (buf + n - 1).toNat = buf.toNat + (n.toNat - 1) := by
  have inMemory := room.inMemory
  have positive := room.size_pos
  bv_omega

theorem at_toNat (room : BufferOf buf n) {i : Nat} (inside : i < n.toNat) :
    (buf + BitVec.ofNat 32 i).toNat = buf.toNat + i := by
  have inMemory := room.inMemory
  rw [BitVec.toNat_add, BitVec.toNat_ofNat]
  omega

theorem at_sub (room : BufferOf buf n) {i : Nat} (inside : i < n.toNat) :
    (buf + BitVec.ofNat 32 i - buf).toNat = i := by
  have place := room.at_toNat inside
  rw [BitVec.toNat_sub_of_le (by rw [BitVec.le_def, place]; omega), place,
    Nat.add_sub_cancel_left]

end BufferOf

def laidOver (buf : Word) (bytes : List Byte) (memory : Word → Byte) : Word → Byte :=
  fun a => bytes.getD (a - buf).toNat (memory a)

structure Sprinted (buf n : Word) (memory : Word → Byte) (putdat : SprintBuf × (Word → Byte))
    (chars : List Word) : Prop where
  last : putdat.1.ebuf = buf + n - 1
  counted : putdat.1.cnt = BitVec.ofNat 32 chars.length
  position : putdat.1.buf = buf + BitVec.ofNat 32 (min (n.toNat - 1) chars.length)
  written : putdat.2 = laidOver buf ((chars.map (BitVec.setWidth 8)).take (n.toNat - 1)) memory

section Callback

variable {buf n : Word} {memory : Word → Byte} {putdat : SprintBuf × (Word → Byte)}
  {chars : List Word}

theorem laidOver_append (room : BufferOf buf n) (bytes : List Byte)
    (inside : bytes.length < n.toNat) (byte : Byte) :
    Function.update (laidOver buf bytes memory) (buf + BitVec.ofNat 32 bytes.length) byte =
      laidOver buf (bytes ++ [byte]) memory := by
  funext a
  by_cases here : a = buf + BitVec.ofNat 32 bytes.length
  · rw [here, Function.update_self, laidOver, room.at_sub inside]
    simp
  · rw [Function.update_of_ne here, laidOver, laidOver]
    have other : (a - buf).toNat ≠ bytes.length := by
      intro same
      apply here
      rw [← same, BitVec.ofNat_toNat, BitVec.setWidth_eq, BitVec.add_comm, BitVec.sub_add_cancel]
    rcases Nat.lt_or_gt_of_ne other with before | behind
    · rw [List.getD_append _ _ _ _ before]
    · rw [List.getD_eq_default _ _ (Nat.le_of_lt behind), List.getD_eq_default]
      rw [List.length_append, List.length_singleton]
      exact behind

theorem Sprinted.start (memory : Word → Byte) :
    Sprinted buf n memory (⟨buf, buf + n - 1, 0⟩, memory) [] := by
  refine ⟨rfl, rfl, ?_, ?_⟩
  · simp
  · funext a
    simp [laidOver]

theorem Sprinted.putch (room : BufferOf buf n) (sprinted : Sprinted buf n memory putdat chars)
    (ch : Word) : Sprinted buf n memory (sprintputch putdat ch) (chars ++ [ch]) := by
  obtain ⟨last, counted, position, written⟩ := sprinted
  have positive := room.size_pos
  have next : putdat.1.cnt + 1 = BitVec.ofNat 32 (chars ++ [ch]).length := by
    rw [counted, List.length_append, List.length_singleton, BitVec.ofNat_add]
    rfl
  have place : putdat.1.buf.toNat = buf.toNat + min (n.toNat - 1) chars.length := by
    rw [position, room.at_toNat (by omega)]
  have compare : putdat.1.buf < putdat.1.ebuf ↔ chars.length < n.toNat - 1 := by
    rw [BitVec.lt_def, last, place, room.last_toNat]
    omega
  rw [sprintputch]
  by_cases more : chars.length < n.toNat - 1
  · have length : ((chars.map (BitVec.setWidth 8)).take (n.toNat - 1)).length = chars.length := by
      rw [List.length_take, List.length_map]
      omega
    simp only [compare, more, if_true]
    refine ⟨last, next, ?_, ?_⟩
    · rw [List.length_append, List.length_singleton, Nat.min_eq_right (by omega)]
      rw [position, Nat.min_eq_right (by omega), BitVec.ofNat_add, BitVec.add_assoc]
      rfl
    · dsimp only
      rw [written, position, Nat.min_eq_right (by omega), ← length,
        laidOver_append room _ (by omega), List.take_of_length_le, List.take_of_length_le,
        List.map_append]
      · rfl
      · rw [List.length_map, List.length_append, List.length_singleton]
        omega
      · rw [List.length_map]
        omega
  · simp only [compare, more, if_false]
    refine ⟨last, next, ?_, ?_⟩
    · rw [position, List.length_append, List.length_singleton, Nat.min_eq_left (by omega),
        Nat.min_eq_left (by omega)]
    · rw [written, List.map_append, List.take_append_of_le_length]
      rw [List.length_map]
      omega

theorem Sprinted.foldl (room : BufferOf buf n) (sprinted : Sprinted buf n memory putdat chars)
    (more : List Word) :
    Sprinted buf n memory (more.foldl sprintputch putdat) (chars ++ more) := by
  induction more generalizing putdat chars with
  | nil => simpa using sprinted
  | cons ch rest ih => simpa using ih (sprinted.putch room ch)

end Callback

structure PrintsInto (buf n : Word) (memory : Word → Byte) (chars : List Word)
    (result : Word × (Word → Byte)) : Prop where
  returned : result.1.toInt = chars.length
  text : ∀ i < min (n.toNat - 1) chars.length,
    result.2 (buf + BitVec.ofNat 32 i) = (chars.getD i 0).setWidth 8
  terminated : result.2 (buf + BitVec.ofNat 32 (min (n.toNat - 1) chars.length)) = 0
  outside : ∀ a, (∀ i < n.toNat, a ≠ buf + BitVec.ofNat 32 i) → result.2 a = memory a

theorem printsInto_laidOver {buf n : Word} (room : BufferOf buf n) (memory : Word → Byte)
    {chars : List Word} (short : chars.length < 2 ^ 31) :
    PrintsInto buf n memory chars (BitVec.ofNat 32 chars.length,
      laidOver buf ((chars.map (BitVec.setWidth 8)).take (n.toNat - 1) ++ [0]) memory) := by
  have positive := room.size_pos
  have length : ((chars.map (BitVec.setWidth 8)).take (n.toNat - 1)).length =
      min (n.toNat - 1) chars.length := by
    rw [List.length_take, List.length_map]
  refine ⟨?_, fun i inside => ?_, ?_, fun a other => ?_⟩
  · have bits : (BitVec.ofNat 32 chars.length).toNat = chars.length := by
      rw [BitVec.toNat_ofNat]
      omega
    dsimp only
    rw [BitVec.toInt_eq_toNat_of_lt (by omega), bits]
  · dsimp only
    have within : i < chars.length := by omega
    have before : i < n.toNat - 1 := by omega
    rw [laidOver, room.at_sub (by omega), List.getD_append _ _ _ _ (by rwa [length])]
    simp [List.getD_eq_getElem?_getD, within, before]
  · dsimp only
    rw [laidOver, room.at_sub (by omega), ← length]
    simp
  · dsimp only
    rw [laidOver, List.getD_eq_default]
    rw [List.length_append, length, List.length_singleton]
    by_contra inside
    apply other (a - buf).toNat (by omega)
    rw [BitVec.ofNat_toNat, BitVec.setWidth_eq, BitVec.add_comm, BitVec.sub_add_cancel]

/-- Whatever is printed, `vsnprintf` stays in its buffer, cuts the text and returns its whole
length. The strings lie outside the buffer: `load` does not see what is written to it. -/
theorem vsnprintf_printsInto {load : Word → Except Stop Byte} {fmt : List Byte} {ap : Arguments}
    {chars : List Word} (returns : printed load fmt ap = .ok chars)
    (short : chars.length < 2 ^ 31) {buf n : Word} (room : BufferOf buf n)
    (memory : Word → Byte) :
    ∃ result, vsnprintf load buf n fmt ap memory = .ok result ∧
      PrintsInto buf n memory chars result := by
  have positive := room.size_pos
  have valid : ¬(buf = 0 ∨ n.toInt < 1) := by
    have nonempty := room.nonempty
    rintro (null | empty)
    · exact room.notNull null
    · omega
  have sprinted := (Sprinted.start memory).foldl room chars
  rw [List.nil_append] at sprinted
  have length : ((chars.map (BitVec.setWidth 8)).take (n.toNat - 1)).length =
      min (n.toNat - 1) chars.length := by
    rw [List.length_take, List.length_map]
  refine ⟨_, ?_, printsInto_laidOver room memory short⟩
  rw [vsnprintf, if_neg valid, vprintfmt_eq_printed, returns, map_ok, ok_bind]
  rw [← laidOver_append room _ (by rw [length]; omega), length, ← sprinted.written,
    ← sprinted.position, ← sprinted.counted]
  rfl

/-- The buffer has room for one character of the two and the NUL. -/
theorem vsnprintf_printsInto_cut :
    ∃ result, vsnprintf (fun _ => .ok 0) 4096 2 [char 'a', char 'b'] (fun _ => 0)
        (fun _ => 0xFF) = .ok result ∧
      PrintsInto 4096 2 (fun _ => 0xFF) [0x61, 0x62] result :=
  vsnprintf_printsInto rfl (by decide) ⟨by decide, by decide, by decide⟩ _

end FosV2
