import FosV2.ConsolePrinting
import FosV2.PrintNumber

/-!
The buffering of `lib/printf.c` is transparent: the chunks of the calls of `sys_cputs` make up
the text, whatever its length. The count is an `int` and wraps.
-/

namespace FosV2

def emptyPrintBuf (stack : Nat → Byte) : PrintBuf × List (List Byte) := (⟨0, 0, stack⟩, [])

structure ChunkedOutput (stack : Nat → Byte) (chars : List Word) (count : Word)
    (calls : List (List Byte)) (buf : Nat → Byte) : Prop where
  bounded : ∀ call ∈ calls, call.length ≤ 255
  text : calls.flatten = chars.map (BitVec.setWidth 8)
  wrapped : count = BitVec.ofNat 32 chars.length
  returned : chars.length < 2 ^ 31 → count.toInt = chars.length
  inside : ∀ before ch after, chars = before ++ ch :: after →
    (before.foldl userPutch (emptyPrintBuf stack)).1.idx < 256
  outside : ∀ i, 256 ≤ i → buf i = stack i

section Flushing

variable {stack : Nat → Byte} {putdat : PrintBuf × List (List Byte)}

structure Flushed (stack : Nat → Byte) (putdat : PrintBuf × List (List Byte)) : Prop where
  room : putdat.1.idx < 255
  full : ∀ call ∈ putdat.2, call.length = 255
  outside : ∀ i, 256 ≤ i → putdat.1.buf i = stack i

theorem cputsBytes_length (buf : Nat → Byte) (len : Nat) : (cputsBytes buf len).length = len := by
  rw [cputsBytes, List.length_map, List.length_range]

theorem Flushed.putch (flushed : Flushed stack putdat) (ch : Word) :
    Flushed stack (userPutch putdat ch) := by
  obtain ⟨room, full, outside⟩ := flushed
  have untouched : ∀ i, 256 ≤ i →
      Function.update putdat.1.buf putdat.1.idx (ch.setWidth 8) i = stack i := by
    intro i beyond
    rw [Function.update_of_ne (by omega)]
    exact outside i beyond
  by_cases last : putdat.1.idx + 1 = 256 - 1
  · simp only [userPutch, last, if_true]
    refine ⟨Nat.zero_lt_succ 254, fun call member => ?_, untouched⟩
    rcases List.mem_append.mp member with earlier | now
    · exact full call earlier
    · rw [List.mem_singleton.mp now, cputsBytes_length]
  · simp only [userPutch, last, if_false]
    refine ⟨?_, full, untouched⟩
    dsimp only
    omega

theorem Flushed.foldl (flushed : Flushed stack putdat) (chars : List Word) :
    Flushed stack (chars.foldl userPutch putdat) := by
  induction chars generalizing putdat with
  | nil => exact flushed
  | cons ch rest ih => exact ih (flushed.putch ch)

theorem flushed_empty (stack : Nat → Byte) : Flushed stack (emptyPrintBuf stack) :=
  ⟨Nat.zero_lt_succ 254, fun _ member => absurd member List.not_mem_nil, fun _ _ => rfl⟩

end Flushing

/-- The text reaches the kernel in chunks of at most 255 bytes, with nothing lost or repeated
at the flushes. -/
theorem userVcprintf_chunked (stack : Nat → Byte) {load : Word → Except Stop Byte}
    {fmt : List Byte} {ap : Arguments} {chars : List Word}
    (returns : printed load fmt ap = .ok chars) :
    ∃ b calls, vprintfmt userPutch load fmt ap (emptyPrintBuf stack) = .ok (b, calls) ∧
      userVcprintf stack load fmt ap = .ok (b.cnt, calls ++ [cputsBytes b.buf b.idx]) ∧
      ChunkedOutput stack chars b.cnt (calls ++ [cputsBytes b.buf b.idx]) b.buf := by
  have buffered : Buffered (chars.foldl userPutch (emptyPrintBuf stack)) ([] ++ chars) :=
    Buffered.foldl ⟨Nat.zero_lt_succ 254, rfl, rfl⟩ chars
  have flushed := (flushed_empty stack).foldl chars
  have put : vprintfmt userPutch load fmt ap (emptyPrintBuf stack) =
      .ok (chars.foldl userPutch (emptyPrintBuf stack)) := by
    rw [vprintfmt_eq_printed, returns, map_ok]
  rw [List.nil_append] at buffered
  generalize last : chars.foldl userPutch (emptyPrintBuf stack) = putdat at *
  obtain ⟨b, calls⟩ := putdat
  refine ⟨b, calls, put, ?_, ?_⟩
  · change (vprintfmt userPutch load fmt ap (emptyPrintBuf stack) >>= _) = _
    rw [put]
    rfl
  · refine ⟨fun call member => ?_, ?_, buffered.counted, fun short => ?_,
      fun before ch after _ => ?_, flushed.outside⟩
    · rcases List.mem_append.mp member with earlier | final
      · exact Nat.le_of_eq (flushed.full call earlier)
      · rw [List.mem_singleton.mp final, cputsBytes_length]
        exact Nat.le_of_lt flushed.room
    · rw [List.flatten_append, List.flatten_singleton]
      exact buffered.bytes
    · have counted : b.cnt = BitVec.ofNat 32 chars.length := buffered.counted
      have bits : b.cnt.toNat = chars.length := by
        rw [counted, BitVec.toNat_ofNat]
        omega
      rw [BitVec.toInt_eq_toNat_of_lt (by omega), bits]
    · exact Nat.lt_trans ((flushed_empty stack).foldl before).room (by omega)

/-- A `%*d` of 1 with the width 600: the buffer is full twice, and the rest is sent at the end. -/
theorem userVcprintf_chunked_wide : ∃ (chars : List Word) (b : PrintBuf) (calls : List (List Byte)),
    chars.length = 600 ∧
    userVcprintf (fun _ => 0) (fun _ => .ok 0) ("%*d".toList.map char)
      (fun i => if i = 0 then 600 else 1) = .ok (b.cnt, calls ++ [cputsBytes b.buf b.idx]) ∧
    ChunkedOutput (fun _ => 0) chars b.cnt (calls ++ [cputsBytes b.buf b.idx]) b.buf := by
  have two : 1 < (10 : BitVec 64).toNat := by decide
  have most : (10 : BitVec 64).toNat ≤ 16 := by decide
  have put := putNumber_record 1 two most ⟨char ' ', 600, -1, 0, false⟩ []
  have shown : printed (fun _ => .ok 0) ("%*d".toList.map char)
      (fun i => if i = 0 then 600 else 1) = _ :=
    (vprintfmt_escape ("*d".toList.map char) rfl convert_decimal).trans put
  have one : numeral (10 : BitVec 64).toNat (1 : BitVec 64).toNat = [char '1'] := by decide
  have pads : ((600 : Word) - BitVec.ofNat 32 1).toInt.toNat = 599 := by decide
  obtain ⟨b, calls, _, user, chunked⟩ := userVcprintf_chunked (fun _ => 0) shown
  refine ⟨_, b, calls, ?_, user, chunked⟩
  rw [one, List.nil_append, List.length_map, List.length_append, List.length_replicate,
    List.length_singleton]
  exact congrArg (· + 1) pads

/-- A `%*d` of -1 with the largest width prints 2^31 characters, and the count is negative. -/
theorem userVcprintf_wraps : ∃ chars calls,
    printed (fun _ => .ok 0) ("%*d".toList.map char)
      (fun i => if i = 0 then 0x7FFFFFFF else -1) = .ok chars ∧
    userVcprintf (fun _ => 0) (fun _ => .ok 0) ("%*d".toList.map char)
      (fun i => if i = 0 then 0x7FFFFFFF else -1) = .ok (0x80000000, calls) ∧
    chars.length = 2 ^ 31 ∧ (0x80000000 : Word).toInt ≠ chars.length := by
  have two : 1 < (10 : BitVec 64).toNat := by decide
  have most : (10 : BitVec 64).toNat ≤ 16 := by decide
  have put := putNumber_record 1 two most ⟨char ' ', 0x7FFFFFFF, -1, 0, false⟩
    [(char '-').signExtend 32]
  have shown : printed (fun _ => .ok 0) ("%*d".toList.map char)
      (fun i => if i = 0 then 0x7FFFFFFF else -1) = _ :=
    (vprintfmt_escape ("*d".toList.map char) rfl convert_decimal).trans put
  have one : numeral (10 : BitVec 64).toNat (1 : BitVec 64).toNat = [char '1'] := by decide
  have pads : ((0x7FFFFFFF : Word) - BitVec.ofNat 32 1).toInt.toNat = 2147483646 := by decide
  have length : ([(char '-').signExtend 32] ++
      (List.replicate ((0x7FFFFFFF : Word) - BitVec.ofNat 32 (numeral (10 : BitVec 64).toNat
        (1 : BitVec 64).toNat).length).toInt.toNat (char ' ') ++
        numeral (10 : BitVec 64).toNat (1 : BitVec 64).toNat).map
          (BitVec.signExtend 32) : List Word).length = 2 ^ 31 := by
    rw [one, List.length_append, List.length_map, List.length_append, List.length_singleton,
      List.length_replicate, List.length_singleton, pads]
    rfl
  obtain ⟨calls, user, _⟩ := userVcprintf_printed (fun _ => 0) shown
  refine ⟨_, calls, shown, ?_, length, ?_⟩
  · rw [user, length]
    rfl
  · rw [length]
    decide

end FosV2
