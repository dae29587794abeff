import Opensquid.Lib.Lines
import Opensquid.Lib.Utf8

/-!
# UTF-8 that comes in chunks

`Decoder` decodes bytes as they come, a replacement character standing for what is not
valid; it keeps the bytes of a character that is not complete. `Framer` puts the text
together and takes the complete lines away. A line feed ends whatever is kept, so the
lines do not depend on the chunks (`Framer.write_unlines_append`), and `decode` works line by
line as well (`completeLines_decode`).
-/

namespace Opensquid.Lib.Utf8

open Lines

/-! ## Decoding byte by byte -/

structure Decoder where
  /-- The bytes of the character that is not complete. -/
  pending : List UInt8
  /-- How many bytes it still needs. -/
  needed : Nat
  /-- The range of the next one. -/
  lower : UInt8
  upper : UInt8
  free : (10 : UInt8) ∉ pending
  high : 0x80 ≤ lower

namespace Decoder

def idle : Decoder := ⟨[], 0, 0x80, 0xbf, List.not_mem_nil, by decide⟩

/-- The character of a complete sequence. -/
def character (bytes : List UInt8) : Char := (headChar? bytes).getD '\ufffd'

theorem range_of_continuation {b low high : UInt8} {count : Nat}
    (known : continuation b = some (low, high, count)) : 0x80 ≤ low ∧ 0x80 ≤ b := by
  have above : ∀ {least : UInt8}, 0x80 ≤ least → least ≤ b → 0x80 ≤ b := UInt8.le_trans
  unfold continuation at known
  repeat' split at known
  all_goals
    rename_i range
    cases known
  all_goals
    refine ⟨by decide, ?_⟩
    first
      | exact above (by decide) range.1
      | exact range ▸ by decide

theorem ne_newline {b low : UInt8} (high : 0x80 ≤ low) (above : low ≤ b) : b ≠ 10 := by
  rintro rfl
  exact absurd (UInt8.le_trans high above) (by decide)

/-- The first byte of a character. -/
def lead (b : UInt8) : Decoder × List Char :=
  match known : continuation b with
  | none => (idle, [character [b]])
  | some (low, high, count) =>
      (⟨[b], count, low, high, fun mem =>
        ne_newline (range_of_continuation known).2 (UInt8.le_refl b) (List.mem_singleton.mp mem).symm,
        (range_of_continuation known).1⟩, [])

def step (d : Decoder) (b : UInt8) : Decoder × List Char :=
  if d.needed = 0 then lead b
  else if inside : d.lower ≤ b ∧ b ≤ d.upper then
    if d.needed = 1 then (idle, [character (d.pending ++ [b])])
    else
      (⟨d.pending ++ [b], d.needed - 1, 0x80, 0xbf, fun mem => by
        rcases List.mem_append.mp mem with old | new
        · exact d.free old
        · exact ne_newline d.high inside.1 (List.mem_singleton.mp new).symm, by decide⟩, [])
  else ((lead b).1, '\ufffd' :: (lead b).2)

/-- `decoder.write(chunk)`. -/
def write (d : Decoder) : List UInt8 → Decoder × List Char
  | [] => (d, [])
  | b :: bytes => (((d.step b).1.write bytes).1, (d.step b).2 ++ ((d.step b).1.write bytes).2)

/-- `decoder.end()`. -/
def flush (d : Decoder) : List Char := if d.needed = 0 then [] else ['\ufffd']

theorem write_append (d : Decoder) (bytes more : List UInt8) :
    d.write (bytes ++ more) =
      (((d.write bytes).1.write more).1, (d.write bytes).2 ++ ((d.write bytes).1.write more).2) := by
  induction bytes generalizing d with
  | nil => rfl
  | cons b bytes ih => simp only [List.cons_append, write, ih, List.append_assoc]

theorem character_ne_newline {bytes : List UInt8} (free : (10 : UInt8) ∉ bytes) :
    character bytes ≠ '\n' := by
  intro same
  rw [character] at same
  cases head : headChar? bytes with
  | none =>
      rw [head] at same
      exact absurd same (by decide)
  | some c =>
      rw [head] at same
      obtain ⟨rest, rfl⟩ := exists_of_headChar?_eq_some head
      cases same
      exact free (List.mem_append_left _ (encode_newline ▸ List.mem_singleton_self _))

theorem newline_not_mem_lead {b : UInt8} (other : b ≠ 10) : '\n' ∉ (lead b).2 := by
  unfold lead
  split
  · intro mem
    have free : (10 : UInt8) ∉ [b] := fun mem => other (List.mem_singleton.mp mem).symm
    exact character_ne_newline free (List.mem_singleton.mp mem).symm
  · exact List.not_mem_nil

theorem newline_not_mem_step {d : Decoder} {b : UInt8} (other : b ≠ 10) : '\n' ∉ (d.step b).2 := by
  unfold step
  split
  · exact newline_not_mem_lead other
  split
  · split
    · intro mem
      have free : (10 : UInt8) ∉ d.pending ++ [b] := fun mem => by
        rcases List.mem_append.mp mem with old | new
        · exact d.free old
        · exact other (List.mem_singleton.mp new).symm
      exact character_ne_newline free (List.mem_singleton.mp mem).symm
    · exact List.not_mem_nil
  · intro mem
    rcases List.mem_cons.mp mem with same | mem
    · exact absurd same (by decide)
    · exact newline_not_mem_lead other mem

theorem newline_not_mem_write {d : Decoder} {bytes : List UInt8} (free : (10 : UInt8) ∉ bytes) :
    '\n' ∉ (d.write bytes).2 := by
  induction bytes generalizing d with
  | nil => exact List.not_mem_nil
  | cons b bytes ih =>
      rw [List.mem_cons, not_or] at free
      rw [write, List.mem_append, not_or]
      exact ⟨newline_not_mem_step (Ne.symm free.1), ih free.2⟩

theorem lead_newline : lead 10 = (idle, ['\n']) := by
  have read : character [10] = '\n' := by
    rw [character, ← encode_newline]
    simpa using congrArg (Option.getD · '\ufffd') (headChar?_encode '\n' [])
  unfold lead
  split
  · rw [read]
  · rename_i known
    rw [show continuation 10 = none by decide] at known
    cases known

/-- A line feed ends what is kept. -/
theorem step_newline (d : Decoder) : d.step 10 = (idle, d.flush ++ ['\n']) := by
  rw [step, flush, lead_newline]
  split
  · rfl
  · rw [dif_neg fun inside => ne_newline d.high inside.1 rfl]
    rfl

end Decoder

/-- The text of bytes that are all there. -/
def text (bytes : List UInt8) : List Char :=
  (Decoder.idle.write bytes).2 ++ (Decoder.idle.write bytes).1.flush

theorem newline_not_mem_text {bytes : List UInt8} (free : (10 : UInt8) ∉ bytes) : '\n' ∉ text bytes := by
  rw [text, List.mem_append, not_or]
  refine ⟨Decoder.newline_not_mem_write free, ?_⟩
  rw [Decoder.flush]
  split <;> decide

theorem write_unlines (lines : List (List UInt8)) (rest : List UInt8) :
    Decoder.idle.write (unlines 10 lines ++ rest) =
      ((Decoder.idle.write rest).1, unlines '\n' (lines.map text) ++ (Decoder.idle.write rest).2) := by
  induction lines with
  | nil => rfl
  | cons line lines ih =>
      have whole : unlines 10 (line :: lines) ++ rest = line ++ 10 :: (unlines 10 lines ++ rest) := by
        rw [unlines_cons, List.append_assoc, List.cons_append]
      rw [whole, Decoder.write_append, Decoder.write, Decoder.step_newline, ih, List.map_cons,
        unlines_cons, text]
      simp only [List.append_assoc, List.cons_append, List.nil_append]

/-! ## Lines as they come -/

/-- What stands after the last line feed. -/
def lastLine (text : List Char) : List Char := (text.splitOn '\n').getLastD []

structure Framer where
  decoder : Decoder
  /-- The text of the line that is not complete. -/
  line : List Char

namespace Framer

def start : Framer := ⟨.idle, []⟩

/-- A chunk, with the lines it completes. -/
def write (f : Framer) (bytes : List UInt8) : Framer × List (List Char) :=
  let (decoder, text) := f.decoder.write bytes
  (⟨decoder, lastLine (f.line ++ text)⟩, completeLines '\n' (f.line ++ text))

theorem lastLine_unlines_append {lines : List (List Char)} (free : ∀ line ∈ lines, '\n' ∉ line)
    {last : List Char} (lastFree : '\n' ∉ last) : lastLine (unlines '\n' lines ++ last) = last := by
  have split : (unlines '\n' lines ++ last).splitOn '\n' = lines ++ [last] := by
    induction lines with
    | nil => exact List.splitOn_eq_singleton lastFree
    | cons line lines ih =>
        rw [unlines_cons, List.append_assoc, List.cons_append, List.splitOn_append_cons_self,
          List.splitOn_eq_singleton (free line List.mem_cons_self),
          ih fun l mem => free l (List.mem_cons_of_mem _ mem)]
        rfl
  rw [lastLine, split, List.getLastD_concat]

theorem completeLines_append (text more : List Char) :
    completeLines '\n' (text ++ more) =
      completeLines '\n' text ++ completeLines '\n' (lastLine text ++ more) := by
  obtain ⟨lines, last, rfl, free, lastFree⟩ := @exists_unlines_append _ _ '\n' text
  rw [lastLine_unlines_append free lastFree, List.append_assoc, completeLines_unlines_append free,
    completeLines_unlines_append free, completeLines_of_not_mem lastFree, List.append_nil]

theorem lastLine_append (text more : List Char) :
    lastLine (text ++ more) = lastLine (lastLine text ++ more) := by
  obtain ⟨lines, last, rfl, free, lastFree⟩ := @exists_unlines_append _ _ '\n' text
  obtain ⟨lines', last', same, free', lastFree'⟩ := @exists_unlines_append _ _ '\n' (last ++ more)
  have both : ∀ line ∈ lines ++ lines', '\n' ∉ line := fun line mem =>
    (List.mem_append.mp mem).elim (free line) (free' line)
  rw [lastLine_unlines_append free lastFree, List.append_assoc, same, ← List.append_assoc,
    ← unlines_append, lastLine_unlines_append both lastFree', lastLine_unlines_append free' lastFree']

/-- Two chunks are written as one. -/
theorem write_append (f : Framer) (bytes more : List UInt8) :
    f.write (bytes ++ more) =
      (((f.write bytes).1.write more).1, (f.write bytes).2 ++ ((f.write bytes).1.write more).2) := by
  simp only [write, Decoder.write_append]
  rw [← List.append_assoc, completeLines_append, lastLine_append]

/-- The lines of a stream are those between its line feeds. -/
theorem write_unlines_append {lines : List (List UInt8)} (free : ∀ line ∈ lines, (10 : UInt8) ∉ line)
    {rest : List UInt8} (restFree : (10 : UInt8) ∉ rest) :
    (start.write (unlines 10 lines ++ rest)).2 = lines.map text := by
  have texts : ∀ line ∈ lines.map text, '\n' ∉ line := fun line mem => by
    obtain ⟨bytes, inside, rfl⟩ := List.mem_map.mp mem
    exact newline_not_mem_text (free bytes inside)
  have last := Decoder.newline_not_mem_write (d := .idle) restFree
  simp only [write, start, List.nil_append, write_unlines]
  rw [completeLines_unlines_append texts, completeLines_of_not_mem last, List.append_nil]

end Framer

/-! ## Decoding line by line -/

theorem newline_not_mem_decode {bytes : List UInt8} (free : (10 : UInt8) ∉ bytes) :
    '\n' ∉ decode bytes := newline_not_mem_decodeWithin free

theorem maximalSubpart_pos (bytes : List UInt8) : 0 < maximalSubpart bytes := by
  unfold maximalSubpart
  split
  · split
    · exact Nat.one_pos
    · split <;> omega
  · exact Nat.one_pos

/-- Any bound will do that is long enough. -/
theorem decodeWithin_eq_decode {n : Nat} {bytes : List UInt8} (enough : bytes.length ≤ n) :
    decodeWithin n bytes = decode bytes := by
  have any : ∀ (n m : Nat) (bytes : List UInt8), bytes.length ≤ n → bytes.length ≤ m →
      decodeWithin n bytes = decodeWithin m bytes := by
    intro n
    induction n with
    | zero =>
        intro m bytes none _
        rw [List.length_eq_zero_iff.mp (Nat.le_zero.mp none)]
        cases m <;> rfl
    | succ n ih =>
        intro m bytes first second
        cases bytes with
        | nil => cases m <;> rfl
        | cons lead rest =>
            obtain ⟨m, rfl⟩ : ∃ k, m = k + 1 := ⟨m - 1, by rw [List.length_cons] at second; omega⟩
            have dropped : ∀ {k}, 0 < k → decodeWithin n ((lead :: rest).drop k) =
                decodeWithin m ((lead :: rest).drop k) := fun some => by
              refine ih m _ ?_ ?_ <;> rw [List.length_drop] <;> omega
            rw [decodeWithin, decodeWithin]
            split
            · rw [dropped (Char.utf8Size_pos _)]
            · rw [dropped (maximalSubpart_pos _)]
  exact any n bytes.length bytes enough le_rfl

theorem decode_chars_append (chars : List Char) (rest : List UInt8) :
    decode (encode chars ++ rest) = chars ++ decode rest := by
  have long := length_le_length_encode chars
  have left : rest.length ≤ (encode chars ++ rest).length - chars.length := by
    rw [List.length_append]
    omega
  rw [decode, decodeWithin_encode_append (by rw [List.length_append]; omega),
    decodeWithin_eq_decode left]

/-- No line feed continues a character. -/
theorem maximalSubpart_append {bytes : List UInt8} (some_byte : bytes ≠ []) (rest : List UInt8) :
    maximalSubpart (bytes ++ 10 :: rest) = maximalSubpart bytes ∧
      maximalSubpart bytes ≤ bytes.length := by
  have stops : ∀ (more : List UInt8) (n : Nat),
      ((more ++ 10 :: rest).take n).takeWhile (fun b => 0x80 ≤ b && b ≤ 0xbf) =
        (more.take n).takeWhile (fun b => 0x80 ≤ b && b ≤ 0xbf) := by
    intro more
    induction more with
    | nil =>
        intro n
        cases n <;> rfl
    | cons b more ih =>
        intro n
        cases n with
        | zero => rfl
        | succ n =>
            rw [List.cons_append, List.take_succ_cons, List.take_succ_cons, List.takeWhile_cons,
              List.takeWhile_cons, ih]
  match bytes, some_byte with
  | [lead], _ =>
      refine ⟨?_, le_rfl⟩
      change maximalSubpart (lead :: 10 :: rest) = 1
      rw [maximalSubpart]
      split
      · rfl
      · rename_i low high count known
        refine if_neg fun inside => ?_
        exact Decoder.ne_newline (Decoder.range_of_continuation known).1 inside.1 rfl
  | lead :: second :: more, _ =>
      change maximalSubpart (lead :: second :: (more ++ 10 :: rest)) = _ ∧ _
      rw [maximalSubpart, maximalSubpart]
      split
      · exact ⟨rfl, by simp⟩
      · split
        · rw [stops]
          refine ⟨rfl, ?_⟩
          have short : ∀ n, ((more.take n).takeWhile fun b => 0x80 ≤ b && b ≤ 0xbf).length ≤
              more.length := fun n =>
            ((List.takeWhile_sublist _).trans (List.take_sublist n more)).length_le
          rw [List.length_cons, List.length_cons, Nat.add_comm]
          exact Nat.add_le_add_right (short _) 2
        · exact ⟨rfl, by simp⟩

theorem decode_char (c : Char) (rest : List UInt8) :
    decode (String.utf8EncodeChar c ++ rest) = c :: decode rest := by
  have whole := decode_chars_append [c] rest
  rw [encode_cons] at whole
  exact (congrArg decode (by rw [encode, List.flatMap_nil, List.append_nil])).trans whole

theorem decode_of_headChar?_eq_none {lead : UInt8} {more : List UInt8}
    (invalid : headChar? (lead :: more) = none) :
    decode (lead :: more) =
      '\ufffd' :: decode ((lead :: more).drop (maximalSubpart (lead :: more))) := by
  have positive := maximalSubpart_pos (lead :: more)
  have left : ((lead :: more).drop (maximalSubpart (lead :: more))).length ≤ more.length := by
    rw [List.length_drop, List.length_cons]
    omega
  rw [decode, List.length_cons, decodeWithin, invalid]
  exact congrArg _ (decodeWithin_eq_decode left)

/-- A line feed completes no character. -/
theorem headChar?_append_newline {lead : UInt8} {more : List UInt8}
    (invalid : headChar? (lead :: more) = none) (rest : List UInt8) :
    headChar? (lead :: more ++ 10 :: rest) = none := by
  by_contra valid
  obtain ⟨c, head⟩ := Option.ne_none_iff_exists'.mp valid
  obtain ⟨after, same⟩ := exists_of_headChar?_eq_some head
  rcases List.append_eq_append_iff.mp same with ⟨cut, covers, tail⟩ | ⟨cut, inside, -⟩
  · cases cut with
    | nil =>
        rw [List.append_nil] at covers
        have known := headChar?_encode c []
        rw [covers, List.append_nil, invalid] at known
        cases known
    | cons b cut =>
        obtain ⟨rfl, -⟩ := List.cons.inj tail
        have newline : (10 : UInt8) ∈ String.utf8EncodeChar c :=
          covers ▸ List.mem_append_right _ List.mem_cons_self
        rw [eq_newline_of_mem_encode newline, encode_newline] at covers
        have sizes := congrArg List.length covers
        simp at sizes
  · rw [inside, headChar?_encode] at invalid
    cases invalid

/-- A line feed ends what is before it. -/
theorem decode_append_newline (bytes rest : List UInt8) :
    decode (bytes ++ 10 :: rest) = decode bytes ++ '\n' :: decode rest := by
  induction size : bytes.length using Nat.strong_induction_on generalizing bytes with
  | _ size ih =>
      subst size
      cases bytes with
      | nil => exact decode_char '\n' rest
      | cons lead more =>
          cases head : headChar? (lead :: more) with
          | some c =>
              obtain ⟨after, same⟩ := exists_of_headChar?_eq_some head
              have shorter : after.length < (lead :: more).length := by
                have positive := c.utf8Size_pos
                rw [same, List.length_append, String.length_utf8EncodeChar]
                omega
              rw [same, List.append_assoc, decode_char, decode_char, ih _ shorter after rfl,
                List.cons_append]
          | none =>
              obtain ⟨same, inside⟩ := maximalSubpart_append (List.cons_ne_nil lead more) rest
              have positive := maximalSubpart_pos (lead :: more)
              have shorter : ((lead :: more).drop (maximalSubpart (lead :: more))).length <
                  (lead :: more).length := by
                rw [List.length_drop]
                omega
              have whole : decode (lead :: more ++ 10 :: rest) = '\ufffd' :: decode
                  ((lead :: more ++ 10 :: rest).drop (maximalSubpart (lead :: more ++ 10 :: rest))) :=
                decode_of_headChar?_eq_none (headChar?_append_newline head rest)
              rw [whole, same, List.drop_append_of_le_length inside, ih _ shorter _ rfl,
                decode_of_headChar?_eq_none head, List.cons_append]

theorem decode_unlines_append (lines : List (List UInt8)) (rest : List UInt8) :
    decode (unlines 10 lines ++ rest) = unlines '\n' (lines.map decode) ++ decode rest := by
  induction lines with
  | nil => rfl
  | cons line lines ih =>
      rw [unlines_cons, List.append_assoc, List.cons_append, decode_append_newline, ih, List.map_cons,
        unlines_cons, List.append_assoc, List.cons_append]

/-- The complete lines of the text are those of the bytes. -/
theorem completeLines_decode (bytes : List UInt8) :
    completeLines '\n' (decode bytes) = (completeLines 10 bytes).map decode := by
  obtain ⟨lines, last, rfl, free, lastFree⟩ := @exists_unlines_append _ _ (10 : UInt8) bytes
  have decoded : ∀ line ∈ lines.map decode, '\n' ∉ line := fun line mem => by
    obtain ⟨bytes, inside, rfl⟩ := List.mem_map.mp mem
    exact newline_not_mem_decode (free bytes inside)
  rw [decode_unlines_append, completeLines_unlines_append decoded, completeLines_unlines_append free,
    completeLines_of_not_mem lastFree, completeLines_of_not_mem (newline_not_mem_decode lastFree),
    List.append_nil, List.append_nil]

end Opensquid.Lib.Utf8
