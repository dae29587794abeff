import Opensquid.Lib.Utf8Stream

/-!
# Text that is decoded piece by piece

A text whose bytes are cut into pieces is the same decoded piece by piece as decoded whole if and
only if no cut falls inside a character (`flatMap_decode_eq_iff`). A piece gives at least as many
characters as it has bytes that start one, and one more if it starts inside a character; so a cut
inside a character leaves too many characters.
-/

namespace Opensquid.Lib.Utf8

open String (utf8EncodeChar)

/-- A byte that goes on in a character. -/
def isContinuation (b : UInt8) : Bool := 0x80 ≤ b && b ≤ 0xbf

/-- How many characters start in the bytes. -/
def leads (bytes : List UInt8) : Nat := bytes.countP (!isContinuation ·)

theorem isContinuation_ofNat (n : Nat) :
    isContinuation (UInt8.ofNat n) = decide (128 ≤ n % 256 ∧ n % 256 ≤ 191) := by
  simp only [isContinuation, UInt8.le_iff_toNat_le, UInt8.toNat_ofNat', Bool.decide_and]
  rfl

/-- Only the first byte of a character starts it. -/
theorem exists_lead (c : Char) :
    ∃ lead tail, utf8EncodeChar c = lead :: tail ∧ isContinuation lead = false ∧
      ∀ b ∈ tail, isContinuation b = true := by
  unfold utf8EncodeChar
  simp only
  split
  · refine ⟨_, [], rfl, ?_, by simp⟩
    rw [isContinuation_ofNat, decide_eq_false_iff_not]
    omega
  split
  · refine ⟨_, _, rfl, ?_, ?_⟩
    · rw [isContinuation_ofNat, decide_eq_false_iff_not]
      omega
    · simp only [List.mem_singleton, forall_eq, isContinuation_ofNat, decide_eq_true_eq]
      omega
  split
  · refine ⟨_, _, rfl, ?_, ?_⟩
    · rw [isContinuation_ofNat, decide_eq_false_iff_not]
      omega
    · simp only [List.mem_cons, List.not_mem_nil, or_false, forall_eq_or_imp, forall_eq,
        isContinuation_ofNat, decide_eq_true_eq]
      omega
  · refine ⟨_, _, rfl, ?_, ?_⟩
    · rw [isContinuation_ofNat, decide_eq_false_iff_not]
      omega
    · simp only [List.mem_cons, List.not_mem_nil, or_false, forall_eq_or_imp, forall_eq,
        isContinuation_ofNat, decide_eq_true_eq]
      omega

theorem leads_append (bytes more : List UInt8) : leads (bytes ++ more) = leads bytes + leads more :=
  List.countP_append

theorem leads_eq_zero {bytes : List UInt8} (inside : ∀ b ∈ bytes, isContinuation b = true) :
    leads bytes = 0 := by
  unfold leads
  rw [List.countP_eq_zero]
  intro b mem
  simp [inside b mem]

theorem leads_char (c : Char) : leads (utf8EncodeChar c) = 1 := by
  obtain ⟨lead, tail, same, first, inside⟩ := exists_lead c
  have rest := leads_eq_zero inside
  unfold leads at rest ⊢
  rw [same, List.countP_cons, rest, first]
  rfl

theorem leads_encode (chars : List Char) : leads (encode chars) = chars.length := by
  induction chars with
  | nil => rfl
  | cons c chars ih =>
      rw [encode_cons, leads_append, leads_char, ih, List.length_cons, Nat.add_comm]

/-- A lead byte does not go on in a character, and what follows it does. -/
theorem bounds_of_continuation {b low high : UInt8} {count : Nat}
    (known : continuation b = some (low, high, count)) :
    0x80 ≤ low ∧ high ≤ 0xbf ∧ isContinuation b = false := by
  have outside : ∀ {least : UInt8}, 0xbf < least → least ≤ b → isContinuation b = false := by
    intro least above bound
    have later : ¬ b ≤ 0xbf := fun early =>
      absurd (UInt8.lt_of_lt_of_le above bound) (UInt8.not_lt.mpr early)
    simp [isContinuation, later]
  unfold continuation at known
  repeat' split at known
  all_goals
    rename_i range
    cases known
  all_goals
    refine ⟨by decide, by decide, ?_⟩
    first
      | exact outside (by decide) range.1
      | exact range ▸ by decide

/-! ## Counting characters -/

/-- What one replacement character stands for starts at most one character. -/
theorem leads_take_maximalSubpart (bytes : List UInt8) :
    leads (bytes.take (maximalSubpart bytes)) ≤ 1 := by
  have first : ∀ b : UInt8, leads [b] ≤ 1 := fun b => List.countP_le_length
  unfold maximalSubpart
  split
  · rename_i lead second rest
    split
    · exact first lead
    · rename_i low high count known
      split
      · rename_i inside
        let more := (rest.take (count - 1)).takeWhile fun b => 0x80 ≤ b && b ≤ 0xbf
        have prefix_ : rest.take more.length = more := by
          have start : more <+: rest := (List.takeWhile_prefix _).trans (List.take_prefix _ _)
          exact (List.prefix_iff_eq_take.mp start).symm
        have going : ∀ b ∈ second :: more, isContinuation b = true := by
          intro b mem
          rcases List.mem_cons.mp mem with rfl | mem
          · have range := bounds_of_continuation known
            simp only [isContinuation, Bool.and_eq_true, decide_eq_true_eq]
            exact ⟨UInt8.le_trans range.1 inside.1, UInt8.le_trans inside.2 range.2.1⟩
          · exact List.all_eq_true.mp List.all_takeWhile b mem
        have taken : (lead :: second :: rest).take (2 + more.length) = [lead] ++ second :: more := by
          rw [Nat.add_comm, List.take_succ_cons, List.take_succ_cons, prefix_]
          rfl
        rw [taken, leads_append, leads_eq_zero going]
        exact first lead
      · exact first lead
  · cases bytes with
    | nil => exact Nat.zero_le 1
    | cons b bytes => exact first b

theorem leads_le_length_decode (bytes : List UInt8) : leads bytes ≤ (decode bytes).length := by
  have within : ∀ (n : Nat) (bytes : List UInt8), bytes.length ≤ n →
      leads bytes ≤ (decodeWithin n bytes).length := by
    intro n
    induction n with
    | zero =>
        intro bytes short
        rw [List.length_eq_zero_iff.mp (Nat.le_zero.mp short)]
        rfl
    | succ n ih =>
        intro bytes short
        cases bytes with
        | nil => rfl
        | cons lead rest =>
            have one : ∀ k, 0 < k → leads ((lead :: rest).take k) ≤ 1 →
                leads (lead :: rest) ≤ (decodeWithin n ((lead :: rest).drop k)).length + 1 := by
              intro k some front
              have back := ih ((lead :: rest).drop k) (by rw [List.length_drop]; omega)
              have both := leads_append ((lead :: rest).take k) ((lead :: rest).drop k)
              rw [List.take_append_drop] at both
              omega
            rw [decodeWithin]
            split
            · rename_i c head
              obtain ⟨more, same⟩ := exists_of_headChar?_eq_some head
              apply one _ (Char.utf8Size_pos c)
              rw [same, ← String.length_utf8EncodeChar, List.take_left, leads_char]
            · exact one _ (maximalSubpart_pos _) (leads_take_maximalSubpart _)
  exact within bytes.length bytes le_rfl

/-- A byte that goes on in a character is a character of its own where nothing precedes it. -/
theorem decode_of_isContinuation {b : UInt8} (going : isContinuation b = true) (rest : List UInt8) :
    decode (b :: rest) = '\ufffd' :: decode rest := by
  have none_head : headChar? (b :: rest) = none := by
    cases head : headChar? (b :: rest) with
    | none => rfl
    | some c =>
        obtain ⟨more, same⟩ := exists_of_headChar?_eq_some head
        obtain ⟨lead, tail, written, first, -⟩ := exists_lead c
        rw [written] at same
        cases same
        rw [first] at going
        cases going
  have single : maximalSubpart (b :: rest) = 1 := by
    have none_known : continuation b = none := by
      cases known : continuation b with
      | none => rfl
      | some bounds =>
          obtain ⟨low, high, count⟩ := bounds
          have other := (bounds_of_continuation known).2.2
          rw [going] at other
          cases other
    unfold maximalSubpart
    split
    · rename_i lead second more same
      cases same
      rw [none_known]
    · rfl
  rw [decode_of_headChar?_eq_none none_head, single]
  rfl

/-! ## Cuts -/

/-- A text cut where no character goes on is cut into two texts. -/
theorem exists_split_of_append_eq_encode {text : List Char} {bytes more : List UInt8}
    (whole : bytes ++ more = encode text) (starts : ∀ b ∈ more.head?, isContinuation b = false) :
    ∃ left right, text = left ++ right ∧ bytes = encode left ∧ more = encode right := by
  induction text generalizing bytes with
  | nil =>
      obtain ⟨rfl, rfl⟩ := List.append_eq_nil_iff.mp whole
      exact ⟨[], [], rfl, rfl, rfl⟩
  | cons c text ih =>
      rw [encode_cons] at whole
      rcases List.append_eq_append_iff.mp whole with ⟨inside, split, rest⟩ | ⟨later, rfl, rest⟩
      · cases bytes with
        | nil => exact ⟨[], c :: text, rfl, rfl, by rw [encode_cons]; exact whole⟩
        | cons lead bytes =>
            obtain ⟨lead', tail, written, -, going⟩ := exists_lead c
            rw [written] at split
            cases split
            cases inside with
            | nil =>
                refine ⟨[c], text, rfl, ?_, rest⟩
                rw [encode_cons, written]
                simp [encode]
            | cons b inside =>
                rw [rest] at starts
                have solid := starts b rfl
                rw [going b (List.mem_append_right _ List.mem_cons_self)] at solid
                cases solid
      · obtain ⟨left, right, rfl, rfl, rfl⟩ := ih rest.symm
        exact ⟨c :: left, right, rfl, by rw [encode_cons], rfl⟩

/-- Pieces that all start a character are texts. -/
theorem forall_eq_encode {text : List Char} {chunks : List (List UInt8)}
    (whole : chunks.flatten = encode text)
    (starts : ∀ chunk ∈ chunks, ∀ b ∈ chunk.head?, isContinuation b = false) :
    ∀ chunk ∈ chunks, ∃ chars, chunk = encode chars := by
  have flat : ∀ chunks : List (List UInt8),
      (∀ chunk ∈ chunks, ∀ b ∈ chunk.head?, isContinuation b = false) →
      ∀ b ∈ chunks.flatten.head?, isContinuation b = false := by
    intro chunks starts
    induction chunks with
    | nil => simp
    | cons next chunks ih =>
        rw [List.flatten_cons, List.head?_append]
        cases same : next.head? with
        | none => exact ih fun chunk mem => starts chunk (List.mem_cons_of_mem _ mem)
        | some b =>
            have here := starts next List.mem_cons_self
            rw [same] at here
            exact here
  induction chunks generalizing text with
  | nil => simp
  | cons chunk chunks ih =>
      have others := fun chunk mem => starts chunk (List.mem_cons_of_mem _ mem)
      rw [List.flatten_cons] at whole
      obtain ⟨left, right, rfl, same, rest⟩ := exists_split_of_append_eq_encode whole (flat _ others)
      exact List.forall_mem_cons.mpr ⟨⟨left, same⟩, ih rest others⟩

/-- Decoding piece by piece is decoding the whole if and only if no cut falls inside a character. -/
theorem flatMap_decode_eq_iff {text : List Char} {chunks : List (List UInt8)}
    (whole : chunks.flatten = encode text) :
    chunks.flatMap decode = text ↔ ∀ chunk ∈ chunks, ∃ chars, chunk = encode chars := by
  constructor
  · intro same
    apply forall_eq_encode whole
    intro chunk mem b first
    obtain ⟨rest, rfl⟩ : ∃ rest, chunk = b :: rest := by
      cases chunk with
      | nil => cases first
      | cons b rest =>
          cases first
          exact ⟨rest, rfl⟩
    cases going : isContinuation b with
    | false => rfl
    | true =>
        -- the piece gives more characters than start in it, and no piece gives fewer
        have most : ∀ chunks : List (List UInt8), leads chunks.flatten ≤ (chunks.flatMap decode).length := by
          intro chunks
          induction chunks with
          | nil => rfl
          | cons chunk chunks ih =>
              have here := leads_le_length_decode chunk
              rw [List.flatten_cons, leads_append, List.flatMap_cons, List.length_append]
              omega
        obtain ⟨before, after, rfl⟩ := List.append_of_mem mem
        have count := leads_encode text
        have front := most before
        have back := most after
        have here := leads_le_length_decode rest
        have none_here : leads [b] = 0 := leads_eq_zero (by simp [going])
        rw [← whole, List.flatten_append, List.flatten_cons, leads_append, leads_append,
          ← List.singleton_append, leads_append, none_here] at count
        rw [← same, List.flatMap_append, List.flatMap_cons, List.length_append, List.length_append,
          decode_of_isContinuation going, List.length_cons] at count
        omega
  · intro texts
    have glued : chunks.flatMap decode = decode chunks.flatten := by
      clear whole
      induction chunks with
      | nil => rfl
      | cons chunk chunks ih =>
          obtain ⟨⟨chars, same⟩, others⟩ := List.forall_mem_cons.mp texts
          rw [List.flatMap_cons, List.flatten_cons, same, decode_chars_append, decode_encode, ih others]
    rw [glued, whole, decode_encode]

end Opensquid.Lib.Utf8
