import Mathlib.Algebra.GroupWithZero.Nat
import Opensquid.Lib.Whitespace

/-!
# The shell tokenizer

`tokenizeShell` is one loop over the characters of a command, with the open quote, the word, the
arguments and the segments so far as its state. `lexemes` reads the same text without that state:
what each piece of it is to the shell. The loop does to its state what the lexemes say, one after
the other (`scanShell_eq`), so a segment is what stands between two separators
(`tokenizeShell_eq_simpleCommands`).

`tokenizeShell_printed` says that the tokenizer gives back what has been printed with any quoting,
any blanks and any separators.
-/

namespace Opensquid.Functions

/-! ## The loop -/

/-- `MAX_LEN`. -/
def maxLen : Nat := 10000

/-- `command.length`, in code units. -/
def codeUnits (command : List Char) : Nat :=
  (command.map fun c => if c.val < 0x10000 then 1 else 2).sum

inductive QuoteMark
  | single
  | double
  deriving DecidableEq, Repr

def singleQuote : Char := '\x27'

def doubleQuote : Char := '\x22'

/-- The characters that a backslash escapes between double quotes. -/
def doubleEscapes : List Char := [doubleQuote, '\\', '$', '\x60']

structure Tokens where
  segments : List (List String) := []
  argv : List String := []
  word : List Char := []
  hasWord : Bool := false
  deriving DecidableEq, Repr

namespace Tokens

def push (t : Tokens) (ch : Char) : Tokens := { t with word := t.word ++ [ch], hasWord := true }

def endWord (t : Tokens) : Tokens :=
  if t.hasWord then { t with argv := t.argv ++ [String.ofList t.word], word := [], hasWord := false }
  else t

def endSeg (t : Tokens) : Tokens :=
  let t := t.endWord
  if t.argv.length > 0 then { t with segments := t.segments ++ [t.argv], argv := [] } else t

/-- An unquoted character that no other one is read with. -/
def read (t : Tokens) (ch : Char) : Tokens :=
  if ch = ';' ∨ ch = '|' ∨ ch = '&' ∨ ch = '\n' then t.endSeg
  else if ch = ' ' ∨ ch = '\t' ∨ ch = '\r' then t.endWord
  else t.push ch

end Tokens

def scanShell : Option QuoteMark → Tokens → List Char → Tokens
  | _, t, [] => t
  | some .single, t, ch :: rest =>
      if ch = singleQuote then scanShell none t rest else scanShell (some .single) (t.push ch) rest
  | some .double, t, [ch] => if ch = doubleQuote then t else t.push ch
  | some .double, t, ch :: next :: rest =>
      if ch = doubleQuote then scanShell none t (next :: rest)
      else if ch = '\\' ∧ next ∈ doubleEscapes then scanShell (some .double) (t.push next) rest
      else scanShell (some .double) (t.push ch) (next :: rest)
  | none, t, [ch] =>
      if ch = singleQuote ∨ ch = doubleQuote then { t with hasWord := true } else t.read ch
  | none, t, ch :: next :: rest =>
      if ch = singleQuote then scanShell (some .single) { t with hasWord := true } (next :: rest)
      else if ch = doubleQuote then scanShell (some .double) { t with hasWord := true } (next :: rest)
      else if ch = '\\' then scanShell none (t.push next) rest
      else if ch = '&' ∧ next = '&' then scanShell none t.endSeg rest
      else if ch = '|' ∧ next = '|' then scanShell none t.endSeg rest
      else scanShell none (t.read ch) (next :: rest)

def tokenizeShell (command : String) : List (List String) :=
  let text := command.toList
  if text = [] ∨ codeUnits text > maxLen then [] else (scanShell none {} text).endSeg.segments

/-! ## Printed commands -/

inductive QuotingStyle
  | single
  | double
  | escaped
  deriving DecidableEq, Repr

/-- No single quote stands in single quotes, and an empty word is quoted. -/
def QuotingStyle.Allows (style : QuotingStyle) (word : String) : Prop :=
  match style with
  | .single => singleQuote ∉ word.toList
  | .double => True
  | .escaped => word ≠ ""

instance (style : QuotingStyle) (word : String) : Decidable (style.Allows word) :=
  match style with
  | .single => inferInstanceAs (Decidable (singleQuote ∉ word.toList))
  | .double => .isTrue trivial
  | .escaped => inferInstanceAs (Decidable (word ≠ ""))

structure QuotedWord where
  word : String
  style : QuotingStyle
  allowed : style.Allows word

def escapeDouble (ch : Char) : List Char := if ch ∈ doubleEscapes then ['\\', ch] else [ch]

def QuotedWord.text (q : QuotedWord) : List Char :=
  match q.style with
  | .single => singleQuote :: (q.word.toList ++ [singleQuote])
  | .double => doubleQuote :: (q.word.toList.flatMap escapeDouble ++ [doubleQuote])
  | .escaped => q.word.toList.flatMap fun ch => ['\\', ch]

inductive Blank
  | space
  | tab
  deriving DecidableEq, Repr

def Blank.char : Blank → Char
  | .space => ' '
  | .tab => '\t'

inductive Separator
  | and
  | or
  | pipe
  | semicolon
  | background
  | newline
  deriving DecidableEq, Repr

def Separator.text : Separator → List Char
  | .and => ['&', '&']
  | .or => ['|', '|']
  | .pipe => ['|']
  | .semicolon => [';']
  | .background => ['&']
  | .newline => ['\n']

/-- A word and the blanks in front of it, of which there is at least one. -/
structure NextWord where
  blank : Blank
  more : List Blank
  quoted : QuotedWord

/-- An argument vector as it is printed, with blanks around it. -/
structure PrintedSegment where
  lead : List Blank
  first : QuotedWord
  others : List NextWord
  trail : List Blank

structure PrintedCommand where
  first : PrintedSegment
  others : List (Separator × PrintedSegment)

def blanks (bs : List Blank) : List Char := bs.map Blank.char

def NextWord.text (n : NextWord) : List Char := n.blank.char :: (blanks n.more ++ n.quoted.text)

def PrintedSegment.argv (g : PrintedSegment) : List String :=
  g.first.word :: g.others.map (·.quoted.word)

def PrintedSegment.text (g : PrintedSegment) : List Char :=
  blanks g.lead ++ (g.first.text ++ (g.others.flatMap NextWord.text ++ blanks g.trail))

def PrintedCommand.argvs (c : PrintedCommand) : List (List String) :=
  c.first.argv :: c.others.map (·.2.argv)

def PrintedCommand.text (c : PrintedCommand) : List Char :=
  c.first.text ++ c.others.flatMap fun (sep, g) => sep.text ++ g.text

/-! ## Reading words back -/

section

variable {t : Tokens} {w rest : List Char} {ch next : Char} {ss : List (List String)} {argv : List String}

/-- Between two words. -/
def Tokens.between (segments : List (List String)) (argv : List String) : Tokens :=
  { segments, argv }

/-- At the end of a word. -/
def Tokens.within (segments : List (List String)) (argv : List String) (word : String) : Tokens :=
  { segments, argv, word := word.toList, hasWord := true }

theorem endWord_between : (Tokens.between ss argv).endWord = .between ss argv := rfl

theorem endWord_within (word : String) :
    (Tokens.within ss argv word).endWord = .between ss (argv ++ [word]) := by
  simp [Tokens.within, Tokens.endWord, Tokens.between]

theorem endSeg_eq (same : t.endWord = .between ss argv) (nonempty : argv ≠ []) :
    t.endSeg = .between (ss ++ [argv]) [] := by
  unfold Tokens.endSeg
  rw [same]
  exact if_pos (List.length_pos_of_ne_nil nonempty)

theorem foldl_push (w : List Char) (t : Tokens) :
    w.foldl Tokens.push t =
      { t with word := t.word ++ w, hasWord := t.hasWord || decide (w ≠ []) } := by
  induction w generalizing t with
  | nil => simp
  | cons ch w ih =>
      rw [List.foldl_cons, ih]
      simp [Tokens.push]

theorem scanShell_nil (mark : Option QuoteMark) : scanShell mark t [] = t := by
  rcases mark with _ | _ | _ <;> rfl

theorem scanShell_inSingle : scanShell (some .single) t (ch :: rest) =
    if ch = singleQuote then scanShell none t rest else scanShell (some .single) (t.push ch) rest := by
  cases rest <;> rfl

theorem scanShell_inDouble : scanShell (some .double) t (ch :: next :: rest) =
    if ch = doubleQuote then scanShell none t (next :: rest)
    else if ch = '\\' ∧ next ∈ doubleEscapes then scanShell (some .double) (t.push next) rest
    else scanShell (some .double) (t.push ch) (next :: rest) := rfl

theorem scanShell_inDouble_last :
    scanShell (some .double) t [ch] = if ch = doubleQuote then t else t.push ch := rfl

theorem scanShell_bare : scanShell none t (ch :: next :: rest) =
    if ch = singleQuote then scanShell (some .single) { t with hasWord := true } (next :: rest)
    else if ch = doubleQuote then scanShell (some .double) { t with hasWord := true } (next :: rest)
    else if ch = '\\' then scanShell none (t.push next) rest
    else if ch = '&' ∧ next = '&' then scanShell none t.endSeg rest
    else if ch = '|' ∧ next = '|' then scanShell none t.endSeg rest
    else scanShell none (t.read ch) (next :: rest) := rfl

theorem scanShell_bare_last : scanShell none t [ch] =
    if ch = singleQuote ∨ ch = doubleQuote then { t with hasWord := true } else t.read ch := rfl

theorem scanShell_single (free : singleQuote ∉ w) :
    scanShell (some .single) t (w ++ singleQuote :: rest) =
      scanShell none (w.foldl Tokens.push t) rest := by
  induction w generalizing t with
  | nil => simp [scanShell_inSingle]
  | cons ch w ih =>
      obtain ⟨other, free⟩ := not_or.mp (List.mem_cons.not.mp free)
      rw [List.cons_append, scanShell_inSingle, if_neg (Ne.symm other), ih free, List.foldl_cons]

theorem scanShell_double :
    scanShell (some .double) t (w.flatMap escapeDouble ++ doubleQuote :: rest) =
      scanShell none (w.foldl Tokens.push t) rest := by
  induction w generalizing t with
  | nil => cases rest <;> simp [scanShell_inDouble, scanShell_inDouble_last, scanShell_nil]
  | cons ch w ih =>
      rw [List.flatMap_cons, List.append_assoc, List.foldl_cons, ← ih]
      have more : w.flatMap escapeDouble ++ doubleQuote :: rest ≠ [] := by simp
      obtain ⟨next, rest', split⟩ := List.exists_cons_of_ne_nil more
      by_cases special : ch ∈ doubleEscapes
      · have other : '\\' ≠ doubleQuote := by decide
        rw [escapeDouble, if_pos special]
        simp [scanShell_inDouble, other, special]
      · rename' special => ordinary
        have other : ch ≠ doubleQuote := fun same => ordinary (by simp [same, doubleEscapes])
        have unescaped : ch ≠ '\\' := fun same => ordinary (by simp [same, doubleEscapes])
        rw [escapeDouble, if_neg ordinary, List.singleton_append, split]
        simp [scanShell_inDouble, other, unescaped]

theorem scanShell_escaped :
    scanShell none t (w.flatMap (fun ch => ['\\', ch]) ++ rest) =
      scanShell none (w.foldl Tokens.push t) rest := by
  induction w generalizing t with
  | nil => rfl
  | cons ch w ih =>
      have single : '\\' ≠ singleQuote := by decide
      have double : '\\' ≠ doubleQuote := by decide
      rw [List.flatMap_cons, List.foldl_cons, ← ih]
      simp [scanShell_bare, single, double]

theorem scanShell_opens_single (more : rest ≠ []) :
    scanShell none t (singleQuote :: rest) =
      scanShell (some .single) { t with hasWord := true } rest := by
  obtain ⟨next, rest, rfl⟩ := List.exists_cons_of_ne_nil more
  rw [scanShell_bare, if_pos rfl]

theorem scanShell_opens_double (more : rest ≠ []) :
    scanShell none t (doubleQuote :: rest) =
      scanShell (some .double) { t with hasWord := true } rest := by
  obtain ⟨next, rest, rfl⟩ := List.exists_cons_of_ne_nil more
  have other : doubleQuote ≠ singleQuote := by decide
  rw [scanShell_bare, if_neg other, if_pos rfl]

/-- A printed word is read as that word, in every style. -/
theorem scanShell_word (q : QuotedWord) :
    scanShell none (.between ss argv) (q.text ++ rest) =
      scanShell none (.within ss argv q.word) rest := by
  obtain ⟨word, style, allowed⟩ := q
  cases style with
  | single =>
      have more : word.toList ++ singleQuote :: rest ≠ [] := by simp
      simp only [QuotedWord.text, List.cons_append, List.append_assoc, List.nil_append]
      rw [scanShell_opens_single more, scanShell_single allowed, foldl_push]
      simp [Tokens.between, Tokens.within]
  | double =>
      have more : word.toList.flatMap escapeDouble ++ doubleQuote :: rest ≠ [] := by simp
      simp only [QuotedWord.text, List.cons_append, List.append_assoc, List.nil_append]
      rw [scanShell_opens_double more, scanShell_double, foldl_push]
      simp [Tokens.between, Tokens.within]
  | escaped =>
      have nonempty : word.toList ≠ [] := fun none => allowed (String.toList_eq_nil_iff.mp none)
      simp only [QuotedWord.text]
      rw [scanShell_escaped, foldl_push]
      simp [Tokens.between, Tokens.within, nonempty]

/-- An unquoted character that is read by itself. -/
theorem scanShell_read {ch : Char} (alone : ch ∉ [singleQuote, doubleQuote, '\\', '&', '|']) :
    scanShell none t (ch :: rest) = scanShell none (t.read ch) rest := by
  simp only [List.mem_cons, List.not_mem_nil, or_false, not_or] at alone
  cases rest <;> simp [scanShell_bare, scanShell_bare_last, scanShell_nil, alone]

theorem scanShell_blank (b : Blank) :
    scanShell none t (b.char :: rest) = scanShell none t.endWord rest := by
  cases b <;> exact scanShell_read (by decide)

theorem scanShell_blanks {bs : List Blank} (same : t.endWord = .between ss argv) (nonempty : bs ≠ []) :
    scanShell none t (blanks bs ++ rest) = scanShell none (.between ss argv) rest := by
  induction bs generalizing t with
  | nil => exact absurd rfl nonempty
  | cons b bs ih =>
      rw [blanks, List.map_cons, List.cons_append, scanShell_blank, same]
      cases bs with
      | nil => rfl
      | cons => exact ih endWord_between (by simp)

/-- A separator ends a segment, unless the next character belongs to it. -/
theorem scanShell_separator (sep : Separator) (apart : ∀ ch ∈ rest.head?, ch ≠ '&' ∧ ch ≠ '|') :
    scanShell none t (sep.text ++ rest) = scanShell none t.endSeg rest := by
  have single : ∀ ch ∈ ['&', '|'], ch ≠ singleQuote ∧ ch ≠ doubleQuote ∧ ch ≠ '\\' := by
    simp [singleQuote, doubleQuote]
  cases sep with
  | and => simp [Separator.text, scanShell_bare, single '&' (by decide)]
  | or => simp [Separator.text, scanShell_bare, single '|' (by decide)]
  | pipe =>
      cases rest with
      | nil => rfl
      | cons next rest =>
          simp [Separator.text, scanShell_bare, single '|' (by decide), apart next rfl, Tokens.read]
  | semicolon => exact scanShell_read (by decide)
  | background =>
      cases rest with
      | nil => rfl
      | cons next rest =>
          simp [Separator.text, scanShell_bare, single '&' (by decide), apart next rfl, Tokens.read]
  | newline => exact scanShell_read (by decide)

/-! ## Reading commands back -/

theorem head?_text (q : QuotedWord) : ∃ ch, (ch = singleQuote ∨ ch = doubleQuote ∨ ch = '\\') ∧
    (q.text ++ rest).head? = some ch := by
  obtain ⟨word, style, allowed⟩ := q
  cases style with
  | single => exact ⟨singleQuote, Or.inl rfl, rfl⟩
  | double => exact ⟨doubleQuote, Or.inr (Or.inl rfl), rfl⟩
  | escaped =>
      have nonempty : word.toList ≠ [] := fun none => allowed (String.toList_eq_nil_iff.mp none)
      obtain ⟨ch, w, split⟩ := List.exists_cons_of_ne_nil nonempty
      exact ⟨'\\', Or.inr (Or.inr rfl), by simp [QuotedWord.text, split]⟩

/-- No segment starts with a character of a separator. -/
theorem apart_text (g : PrintedSegment) :
    ∀ ch ∈ (g.text ++ rest).head?, ch ≠ '&' ∧ ch ≠ '|' := by
  intro ch first
  simp only [PrintedSegment.text, List.append_assoc] at first
  cases lead : g.lead with
  | nil =>
      obtain ⟨other, mark, same⟩ := @head?_text
        (g.others.flatMap NextWord.text ++ (blanks g.trail ++ rest)) g.first
      rw [lead, blanks, List.map_nil, List.nil_append, same] at first
      cases first
      rcases mark with rfl | rfl | rfl <;> decide
  | cons b bs =>
      rw [lead, blanks, List.map_cons, List.cons_append, List.head?_cons] at first
      cases first
      cases b <;> decide

/-- The words after the first one, each behind its blanks. -/
theorem scanShell_others (others : List NextWord) (same : t.endWord = .between ss argv) :
    ∃ t', scanShell none t (others.flatMap NextWord.text ++ rest) = scanShell none t' rest ∧
      t'.endWord = .between ss (argv ++ others.map (·.quoted.word)) := by
  induction others generalizing t argv with
  | nil => exact ⟨t, rfl, by simpa using same⟩
  | cons n others ih =>
      have next : scanShell none t (n.text ++ (others.flatMap NextWord.text ++ rest)) =
          scanShell none (.within ss argv n.quoted.word) (others.flatMap NextWord.text ++ rest) := by
        have front := @scanShell_blanks t (n.quoted.text ++ (others.flatMap NextWord.text ++ rest))
          ss argv (n.blank :: n.more) same (List.cons_ne_nil _ _)
        rw [scanShell_word] at front
        simpa [NextWord.text, blanks] using front
      obtain ⟨t', read, ends⟩ := ih (@endWord_within ss argv n.quoted.word)
      refine ⟨t', ?_, by simpa using ends⟩
      rw [List.flatMap_cons, List.append_assoc, next, read]

/-- A printed segment is read as its argument vector, which the next separator ends. -/
theorem scanShell_segment (g : PrintedSegment) :
    ∃ t', scanShell none (.between ss []) (g.text ++ rest) = scanShell none t' rest ∧
      t'.endSeg = .between (ss ++ [g.argv]) [] := by
  have lead : scanShell none (.between ss []) (g.text ++ rest) =
      scanShell none (.within ss [] g.first.word)
        (g.others.flatMap NextWord.text ++ (blanks g.trail ++ rest)) := by
    simp only [PrintedSegment.text, List.append_assoc]
    rw [← scanShell_word]
    by_cases none : g.lead = []
    · rw [none]
      rfl
    · exact scanShell_blanks endWord_between none
  obtain ⟨t', read, ends⟩ := @scanShell_others _ (blanks g.trail ++ rest) ss [g.first.word] g.others
    (@endWord_within ss [] g.first.word)
  have whole : [g.first.word] ++ g.others.map (·.quoted.word) = g.argv := rfl
  rw [whole] at ends
  have some : g.argv ≠ [] := List.cons_ne_nil _ _
  rw [lead, read]
  by_cases none : g.trail = []
  · rw [none]
    exact ⟨t', rfl, endSeg_eq ends some⟩
  · exact ⟨_, scanShell_blanks ends none, endSeg_eq endWord_between some⟩

theorem scanShell_segments (others : List (Separator × PrintedSegment))
    (ends : t.endSeg = .between ss []) :
    (scanShell none t (others.flatMap fun (sep, g) => sep.text ++ g.text)).endSeg =
      .between (ss ++ others.map (·.2.argv)) [] := by
  induction others generalizing t ss with
  | nil => simpa [scanShell_nil] using ends
  | cons other others ih =>
      obtain ⟨sep, g⟩ := other
      obtain ⟨t', read, last⟩ := @scanShell_segment
        (others.flatMap fun (sep, g) => sep.text ++ g.text) ss g
      rw [List.flatMap_cons, List.append_assoc, scanShell_separator sep (apart_text g), ends, read,
        ih last]
      simp

end

/-- For every list of argument vectors, every quoting of their words, all blanks and separators:
the tokenizer gives back the argument vectors of what is printed, if that is no longer than its
limit. -/
theorem tokenizeShell_printed (c : PrintedCommand) (short : codeUnits c.text ≤ maxLen) :
    tokenizeShell (String.ofList c.text) = c.argvs := by
  obtain ⟨t', read, ends⟩ := @scanShell_segment
    (c.others.flatMap fun (sep, g) => sep.text ++ g.text) [] c.first
  have all := scanShell_segments c.others ends
  rw [← read] at all
  have nonempty : c.text ≠ [] := by
    intro none
    obtain ⟨ch, -, first⟩ := @head?_text [] c.first.first
    have empty : c.first.first.text = [] := by
      simp only [PrintedCommand.text, PrintedSegment.text, List.append_eq_nil_iff] at none
      exact none.1.2.1
    rw [empty] at first
    cases first
  unfold tokenizeShell
  rw [String.toList_ofList, if_neg (not_or.mpr ⟨nonempty, Nat.not_lt.mpr short⟩)]
  exact congrArg Tokens.segments all

/-- Two words in different quotes, then a word that is escaped. -/
def sampleCommand : PrintedCommand where
  first :=
    { lead := []
      first := ⟨"echo", .single, by decide⟩
      others := [⟨.space, [.tab], ⟨"it's $x; \"", .double, trivial⟩⟩, ⟨.space, [], ⟨"", .single, by decide⟩⟩]
      trail := [.space] }
  others := [(.background, ⟨[], ⟨"a b", .escaped, by decide⟩, [], []⟩)]

theorem tokenizeShell_printed_sample :
    tokenizeShell (String.ofList sampleCommand.text) = [["echo", "it's $x; \"", ""], ["a b"]] :=
  tokenizeShell_printed sampleCommand (by decide)

/-! ## Lexemes -/

/-- What a piece of the text is to the shell. -/
inductive Lexeme
  | plain (ch : Char)
  /-- A character between quotes or behind a backslash, with the text it is written as. -/
  | quoted (ch : Char) (raw : List Char)
  | opening (mark : Char)
  | closing (mark : Char)
  | blank (ch : Char)
  | stop (raw : List Char)
  deriving DecidableEq, Repr

namespace Lexeme

def raw : Lexeme → List Char
  | .plain ch | .opening ch | .closing ch | .blank ch => [ch]
  | .quoted _ raw | .stop raw => raw

/-- What the lexeme does to the state of the loop. -/
def apply (t : Tokens) : Lexeme → Tokens
  | .plain ch | .quoted ch _ => t.push ch
  | .opening _ => { t with hasWord := true }
  | .closing _ => t
  | .blank _ => t.endWord
  | .stop _ => t.endSeg

def isStop : Lexeme → Bool
  | .stop _ => true
  | _ => false

/-- An unquoted character that no other one is read with. -/
def ofChar (ch : Char) : Lexeme :=
  if ch = ';' ∨ ch = '|' ∨ ch = '&' ∨ ch = '\n' then .stop [ch]
  else if ch = ' ' ∨ ch = '\t' ∨ ch = '\r' then .blank ch
  else .plain ch

@[simp] theorem raw_ofChar (ch : Char) : (ofChar ch).raw = [ch] := by
  unfold ofChar
  split_ifs <;> rfl

@[simp] theorem apply_ofChar (t : Tokens) (ch : Char) : (ofChar ch).apply t = t.read ch := by
  unfold ofChar Tokens.read
  split_ifs <;> rfl

end Lexeme

def lexemes : Option QuoteMark → List Char → List Lexeme
  | _, [] => []
  | some .single, ch :: rest =>
      if ch = singleQuote then .closing ch :: lexemes none rest
      else .quoted ch [ch] :: lexemes (some .single) rest
  | some .double, [ch] => if ch = doubleQuote then [.closing ch] else [.quoted ch [ch]]
  | some .double, ch :: next :: rest =>
      if ch = doubleQuote then .closing ch :: lexemes none (next :: rest)
      else if ch = '\\' ∧ next ∈ doubleEscapes then
        .quoted next [ch, next] :: lexemes (some .double) rest
      else .quoted ch [ch] :: lexemes (some .double) (next :: rest)
  | none, [ch] =>
      if ch = singleQuote ∨ ch = doubleQuote then [.opening ch] else [.ofChar ch]
  | none, ch :: next :: rest =>
      if ch = singleQuote then .opening ch :: lexemes (some .single) (next :: rest)
      else if ch = doubleQuote then .opening ch :: lexemes (some .double) (next :: rest)
      else if ch = '\\' then .quoted next [ch, next] :: lexemes none rest
      else if ch = '&' ∧ next = '&' then .stop [ch, next] :: lexemes none rest
      else if ch = '|' ∧ next = '|' then .stop [ch, next] :: lexemes none rest
      else .ofChar ch :: lexemes none (next :: rest)

/-- The state after the lexemes. -/
def Tokens.run (t : Tokens) (ls : List Lexeme) : Tokens := ls.foldl Lexeme.apply t

/-- The loop does what the lexemes say. -/
theorem scanShell_eq (quote : Option QuoteMark) (t : Tokens) (text : List Char) :
    scanShell quote t text = t.run (lexemes quote text) := by
  fun_induction scanShell quote t text <;>
    simp only [lexemes, Tokens.run, List.foldl_cons, List.foldl_nil, Lexeme.apply_ofChar, *, ite_true,
      ite_false] <;> rfl

theorem flatMap_raw_lexemes (quote : Option QuoteMark) (text : List Char) :
    (lexemes quote text).flatMap Lexeme.raw = text := by
  fun_induction lexemes quote text <;>
    simp only [List.flatMap_cons, List.flatMap_nil, Lexeme.raw_ofChar, *] <;> rfl

/-- The lexemes of unquoted text are what the loop makes of their characters. -/
def Lexeme.Reads : Lexeme → Prop
  | .plain ch => ch ∉ [';', '|', '&', '\n', ' ', '\t', '\r']
  | .blank ch => ch ∈ [' ', '\t', '\r']
  | _ => True

namespace Lexeme

@[simp] theorem reads_quoted (ch : Char) (raw : List Char) : (quoted ch raw).Reads := trivial

@[simp] theorem reads_opening (mark : Char) : (opening mark).Reads := trivial

@[simp] theorem reads_closing (mark : Char) : (closing mark).Reads := trivial

@[simp] theorem reads_stop (raw : List Char) : (stop raw).Reads := trivial

@[simp] theorem reads_ofChar (ch : Char) : (ofChar ch).Reads := by
  unfold ofChar
  split_ifs with stop blank
  · trivial
  · simpa [Reads] using blank
  · simp only [not_or] at stop blank
    simp [Reads, stop, blank]

end Lexeme

theorem reads_of_mem_lexemes (quote : Option QuoteMark) (text : List Char) :
    ∀ l ∈ lexemes quote text, l.Reads := by
  fun_induction lexemes quote text <;> simp_all

/-! ## Simple commands -/

/-- What stands between two separators, and which they are; none is the beginning or the end. -/
structure SimpleCommand where
  before : Option (List Char)
  body : List Lexeme
  after : Option (List Char)
  deriving DecidableEq, Repr

def SimpleCommand.argv (c : SimpleCommand) : List String := (Tokens.run {} c.body).endWord.argv

/-- The segment that a simple command is, if it has a word. -/
def SimpleCommand.segments (c : SimpleCommand) : List (List String) :=
  if c.argv = [] then [] else [c.argv]

/-- `before` and `body` are of the command that is being read. -/
def cutCommands (before : Option (List Char)) (body : List Lexeme) : List Lexeme → List SimpleCommand
  | [] => [⟨before, body, none⟩]
  | .stop raw :: rest => ⟨before, body, some raw⟩ :: cutCommands (some raw) [] rest
  | l :: rest => cutCommands before (body ++ [l]) rest

def simpleCommands (command : String) : List SimpleCommand :=
  cutCommands none [] (lexemes none command.toList)

theorem cutCommands_cons {before : Option (List Char)} {body rest : List Lexeme} {l : Lexeme}
    (inside : l.isStop = false) :
    cutCommands before body (l :: rest) = cutCommands before (body ++ [l]) rest := by
  cases l with
  | stop raw => cases inside
  | plain | quoted | opening | closing | blank => rfl

/-- A word that has not begun is empty. -/
def Tokens.Clean (t : Tokens) : Prop := t.hasWord = false → t.word = []

theorem Tokens.Clean.apply {t : Tokens} (clean : t.Clean) (l : Lexeme) : (l.apply t).Clean := by
  have ended : t.endWord.Clean := by
    unfold endWord
    split
    · exact fun _ => rfl
    · exact clean
  cases l with
  | plain | quoted => simp [Lexeme.apply, Clean, push]
  | opening => simp [Lexeme.apply, Clean]
  | closing => exact clean
  | blank => exact ended
  | stop =>
      simp only [Lexeme.apply, endSeg]
      split
      · exact ended
      · exact ended

theorem Tokens.Clean.run {t : Tokens} (clean : t.Clean) (ls : List Lexeme) : (t.run ls).Clean := by
  induction ls generalizing t with
  | nil => exact clean
  | cons l ls ih => exact ih (clean.apply l)

/-- What is not a separator leaves the segments alone and does not look at them. -/
theorem run_segments {body : List Lexeme} (inside : ∀ l ∈ body, l.isStop = false) (t : Tokens)
    (ss : List (List String)) :
    Tokens.run { t with segments := ss } body = { Tokens.run t body with segments := ss } := by
  induction body generalizing t with
  | nil => rfl
  | cons l body ih =>
      obtain ⟨here, inside⟩ := List.forall_mem_cons.mp inside
      have one : l.apply { t with segments := ss } = { l.apply t with segments := ss } := by
        cases l with
        | stop => cases here
        | plain | quoted | opening | closing => rfl
        | blank =>
            simp only [Lexeme.apply, Tokens.endWord]
            split <;> rfl
      rw [Tokens.run, List.foldl_cons, one]
      exact ih inside _

theorem endSeg_of_clean {t : Tokens} (clean : t.Clean) :
    t.endSeg = .between (t.segments ++ if t.endWord.argv = [] then [] else [t.endWord.argv]) [] := by
  have ended : t.endWord = .between t.segments t.endWord.argv := by
    unfold Tokens.endWord
    split
    · rfl
    · rename_i outside
      have without : t.hasWord = false := Bool.eq_false_iff.mpr outside
      obtain ⟨segments, argv, word, hasWord⟩ := t
      cases without
      cases clean rfl
      rfl
  by_cases none : t.endWord.argv = []
  · unfold Tokens.endSeg
    rw [ended]
    simp [none, Tokens.between]
  · rw [endSeg_eq ended none, if_neg none]

theorem endSeg_run {body : List Lexeme} (inside : ∀ l ∈ body, l.isStop = false)
    (ss : List (List String)) (before after : Option (List Char)) :
    (Tokens.run { segments := ss } body).endSeg =
      .between (ss ++ SimpleCommand.segments ⟨before, body, after⟩) [] := by
  have clean : (Tokens.run { segments := ss } body).Clean := Tokens.Clean.run (fun _ => rfl) body
  have same : (Tokens.run { segments := ss } body).endWord.argv = (Tokens.run {} body).endWord.argv := by
    rw [run_segments inside {} ss]
    unfold Tokens.endWord
    split <;> rfl
  rw [endSeg_of_clean clean, same, run_segments inside {} ss]
  rfl

/-- The segments of a reading are those of its simple commands. -/
theorem run_endSeg_segments (ls : List Lexeme) :
    (Tokens.run {} ls).endSeg.segments = (cutCommands none [] ls).flatMap SimpleCommand.segments := by
  have from_body : ∀ (ls body : List Lexeme) (before : Option (List Char)) (ss : List (List String)),
      (∀ l ∈ body, l.isStop = false) →
      (Tokens.run (Tokens.run { segments := ss } body) ls).endSeg.segments =
        ss ++ (cutCommands before body ls).flatMap SimpleCommand.segments := by
    intro ls
    induction ls with
    | nil =>
        intro body before ss inside
        rw [Tokens.run, List.foldl_nil, endSeg_run inside ss before none]
        simp [cutCommands, Tokens.between]
    | cons l ls ih =>
        intro body before ss inside
        by_cases stop : l.isStop = true
        · cases l with
          | stop raw =>
              have next := ih [] (some raw) (ss ++ SimpleCommand.segments ⟨before, body, some raw⟩)
                (by simp)
              rw [Tokens.run, List.foldl_cons, Lexeme.apply, endSeg_run inside ss before (some raw)]
              rw [cutCommands, List.flatMap_cons, ← List.append_assoc]
              exact next
          | plain | quoted | opening | closing | blank => cases stop
        · have here := Bool.eq_false_iff.mpr stop
          rw [cutCommands_cons here, ← ih (body ++ [l]) before ss]
          · simp [Tokens.run]
          · intro l' mem
            rcases List.mem_append.mp mem with old | new
            · exact inside l' old
            · rwa [List.mem_singleton.mp new]
  exact from_body ls [] none [] (by simp)

/-- The tokenizer's segments, for a text within its limit. -/
theorem tokenizeShell_eq {command : String} (short : codeUnits command.toList ≤ maxLen) :
    tokenizeShell command = (simpleCommands command).flatMap SimpleCommand.segments := by
  rw [simpleCommands, ← run_endSeg_segments, ← scanShell_eq, tokenizeShell]
  by_cases empty : command.toList = []
  · simp [empty, scanShell_nil, Tokens.endSeg, Tokens.endWord]
  · exact if_neg (not_or.mpr ⟨empty, Nat.not_lt.mpr short⟩)

theorem mem_segments {c : SimpleCommand} {argv : List String} :
    argv ∈ c.segments ↔ argv = c.argv ∧ c.argv ≠ [] := by
  unfold SimpleCommand.segments
  split
  · rename_i none
    simp [none]
  · rename_i some
    simp [some]

/-- Where a simple command stands in its text. -/
theorem split_of_mem_cutCommands {before : Option (List Char)} {body ls : List Lexeme}
    {c : SimpleCommand} (mem : c ∈ cutCommands before body ls)
    (inside : ∀ l ∈ body, l.isStop = false) :
    (∀ l ∈ c.body, l.isStop = false) ∧
      ∃ front back, body ++ ls = front ++ c.body ++ back ∧
        (front = [] ∧ c.before = before ∨ ∃ raw f, front = f ++ [.stop raw] ∧ c.before = some raw) ∧
        (back = [] ∨ ∃ raw b, back = .stop raw :: b ∧ c.after = some raw) := by
  induction ls generalizing before body with
  | nil =>
      simp only [cutCommands, List.mem_singleton] at mem
      subst mem
      exact ⟨inside, [], [], rfl, Or.inl ⟨rfl, rfl⟩, Or.inl rfl⟩
  | cons l ls ih =>
      by_cases stop : l.isStop = true
      · cases l with
        | stop raw =>
            rcases List.mem_cons.mp mem with rfl | mem
            · exact ⟨inside, [], .stop raw :: ls, rfl, Or.inl ⟨rfl, rfl⟩, Or.inr ⟨raw, ls, rfl, rfl⟩⟩
            · obtain ⟨free, front, back, split, first, last⟩ := ih mem (by simp)
              refine ⟨free, body ++ .stop raw :: front, back, ?_, Or.inr ?_, last⟩
              · rw [List.nil_append] at split
                simp [split]
              · rcases first with ⟨rfl, same⟩ | ⟨raw', f, rfl, same⟩
                · exact ⟨raw, body, rfl, same⟩
                · exact ⟨raw', body ++ .stop raw :: f, by simp, same⟩
        | plain | quoted | opening | closing | blank => cases stop
      · have here := Bool.eq_false_iff.mpr stop
        rw [cutCommands_cons here] at mem
        obtain ⟨free, front, back, split, first, last⟩ := ih mem fun l' old => by
          rcases List.mem_append.mp old with old | new
          · exact inside l' old
          · rwa [List.mem_singleton.mp new]
        exact ⟨free, front, back, by simpa using split, first, last⟩

end Opensquid.Functions
