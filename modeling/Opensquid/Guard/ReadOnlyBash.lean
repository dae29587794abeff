import Mathlib.Data.List.SplitBy
import Opensquid.Functions.ShellParse
import Opensquid.Guard.ReviewerGuard

/-!
# The read-only check and the shell

`isReadOnlyBash` cuts a command with regular expressions that know neither quotes nor escapes, nor
a newline or a single `&` as separators; any white space separates words for them. The shell
tokenizer reads the same text. Where they differ a program can hide from the check
(`newline_hides_program`).

`regexLexemes` is what the regular expressions read, in the lexemes of the shell. A simple command
is seen by the check if it stands between separators that both know and is written without quotes,
escapes and other blanks; `readOnly_iff` says that the check is right exactly if the hidden ones
are read-only themselves.
-/

namespace Opensquid.Guard

open Opensquid.Lib Opensquid.Functions

/-- The first word is an allowed verb and no flag makes it mutate. -/
def ReadOnly (argv : List String) : Prop :=
  argv.head?.any (· ∈ readOnlyVerbs) = true ∧ segmentMutates argv = false

instance (argv : List String) : Decidable (ReadOnly argv) := inferInstanceAs (Decidable (_ ∧ _))

/-- What the regular expression splits at. -/
def regexSeparators : List (List Char) := [['|', '|'], ['&', '&'], [';'], ['|']]

/-- The lexeme is written as itself, and white space is a blank of the shell. -/
def isBare : Lexeme → Bool
  | .plain ch => !isSpace ch
  | .blank _ => true
  | _ => false

/-- The regular expressions need not see the command as the shell does. -/
def Hidden (c : SimpleCommand) : Prop :=
  ¬ ((∀ raw ∈ c.before, raw ∈ regexSeparators) ∧ (∀ raw ∈ c.after, raw ∈ regexSeparators) ∧
    ∀ l ∈ c.body, isBare l = true)

instance (c : SimpleCommand) : Decidable (Hidden c) := inferInstanceAs (Decidable (¬ (_ ∧ _ ∧ _)))

/-! ## What the regular expressions read -/

def ofRegexChar (ch : Char) : Lexeme := if isSpace ch then .blank ch else .plain ch

def regexLexemes : List Char → List Lexeme
  | '|' :: '|' :: rest => .stop ['|', '|'] :: regexLexemes rest
  | '&' :: '&' :: rest => .stop ['&', '&'] :: regexLexemes rest
  | ';' :: rest => .stop [';'] :: regexLexemes rest
  | '|' :: rest => .stop ['|'] :: regexLexemes rest
  | ch :: rest => ofRegexChar ch :: regexLexemes rest
  | [] => []

variable {text rest piece segment : List Char} {ch : Char}

/-- The character of no separator. -/
theorem regexLexemes_cons (ordinary : ch ∉ ['|', '&', ';']) :
    regexLexemes (ch :: rest) = ofRegexChar ch :: regexLexemes rest := by
  simp only [List.mem_cons, List.not_mem_nil, or_false, not_or] at ordinary
  rw [regexLexemes] <;> simp [ordinary]

theorem ordinary_of_isSpace (space : isSpace ch = true) : ch ∉ ['|', '&', ';'] := by
  intro mem
  simp only [List.mem_cons, List.not_mem_nil, or_false] at mem
  rcases mem with rfl | rfl | rfl <;> exact absurd space (by decide)

theorem isStop_ofRegexChar (ch : Char) : (ofRegexChar ch).isStop = false := by
  unfold ofRegexChar
  split <;> rfl

/-- The pieces that the text is split into. -/
theorem cutCommands_regexLexemes (before : Option (List Char)) (piece text : List Char) :
    (cutCommands before (piece.map ofRegexChar) (regexLexemes text)).map SimpleCommand.body =
      (splitSegments piece text).map (List.map ofRegexChar) := by
  fun_induction regexLexemes text generalizing before piece with
  | case5 ch rest _ _ _ _ ih =>
      rw [cutCommands_cons (isStop_ofRegexChar ch), ← List.map_singleton, ← List.map_append, ih,
        splitSegments] <;> assumption
  | case6 => rfl
  | case1 rest ih | case2 rest ih | case3 rest ih | case4 rest _ ih =>
      have next := fun before => @ih before []
      simp_all [cutCommands, splitSegments]

/-! ## Words -/

theorem splitBy_of_forall {b : Bool} (some : piece ≠ []) (all : ∀ c ∈ piece, isSpace c = b) :
    piece.splitBy (fun c d => isSpace c = isSpace d) = [piece] := by
  apply List.splitBy_of_isChain some
  apply List.Pairwise.isChain
  apply List.pairwise_of_forall_mem_list
  intro c memC d memD
  simp [all c memC, all d memD]

theorem splitWords_append (apart : ∀ c ∈ piece.getLast?, ∀ d ∈ rest.head?, isSpace c ≠ isSpace d) :
    splitWords (piece ++ rest) = splitWords piece ++ splitWords rest := by
  unfold splitWords
  rw [List.splitBy_append (fun c memC d memD => decide_eq_false (apart c memC d memD)),
    List.filter_append, List.map_append]

theorem splitWords_blanks (all : ∀ c ∈ piece, isSpace c = true) : splitWords piece = [] := by
  by_cases none : piece = []
  · rw [none]
    rfl
  · obtain ⟨c, piece', rfl⟩ := List.exists_cons_of_ne_nil none
    unfold splitWords
    rw [splitBy_of_forall none all]
    simp [all c List.mem_cons_self]

theorem splitWords_word (some : piece ≠ []) (all : ∀ c ∈ piece, isSpace c = false) :
    splitWords piece = [String.ofList piece] := by
  obtain ⟨c, piece', rfl⟩ := List.exists_cons_of_ne_nil some
  unfold splitWords
  rw [splitBy_of_forall some all]
  simp [all c List.mem_cons_self]

/-- White space in front separates nothing. -/
theorem splitWords_cons (space : isSpace ch = true) : splitWords (ch :: rest) = splitWords rest := by
  have blank : ∀ c ∈ rest.takeWhile isSpace, isSpace c = true := fun c mem =>
    List.all_eq_true.mp List.all_takeWhile c mem
  have stops : ∀ c ∈ (rest.dropWhile isSpace).head?, isSpace c = false := fun c mem => by
    have first := List.head?_dropWhile_not isSpace rest
    rw [Option.mem_def.mp mem] at first
    simpa using first
  have apart : ∀ blanks, (∀ c ∈ blanks, isSpace c = true) →
      splitWords (blanks ++ rest.dropWhile isSpace) = splitWords (rest.dropWhile isSpace) := by
    intro blanks all
    rw [splitWords_append, splitWords_blanks all, List.nil_append]
    intro c last d first
    rw [all c (List.mem_of_getLast? last), stops d first]
    decide
  calc splitWords (ch :: rest)
      = splitWords (ch :: rest.takeWhile isSpace ++ rest.dropWhile isSpace) := by
        rw [List.cons_append, List.takeWhile_append_dropWhile]
    _ = splitWords (rest.dropWhile isSpace) :=
        apart _ (List.forall_mem_cons.mpr ⟨space, blank⟩)
    _ = splitWords (rest.takeWhile isSpace ++ rest.dropWhile isSpace) := (apart _ blank).symm
    _ = splitWords rest := by rw [List.takeWhile_append_dropWhile]

/-- Some characters of a word have been read. -/
def pending (argv : List String) (word : List Char) : Tokens :=
  { argv, word, hasWord := word ≠ [] }

/-- The words that white space leaves are those of the shell's loop on the same lexemes. -/
theorem run_pending {word : List Char} (argv : List String) (solid : ∀ c ∈ word, isSpace c = false) :
    (Tokens.run (pending argv word) (segment.map ofRegexChar)).endWord.argv =
      argv ++ splitWords (word ++ segment) := by
  have ended : (pending argv word).endWord = pending (argv ++ splitWords word) [] := by
    by_cases none : word = []
    · simp [none, pending, Tokens.endWord, splitWords]
    · rw [splitWords_word none solid]
      simp [none, pending, Tokens.endWord]
  induction segment generalizing argv word with
  | nil => rw [List.map_nil, Tokens.run, List.foldl_nil, ended, List.append_nil]; rfl
  | cons c segment ih =>
      rw [List.map_cons, Tokens.run, List.foldl_cons, ofRegexChar]
      split
      · rename_i space
        have apart : splitWords (word ++ c :: segment) = splitWords word ++ splitWords (c :: segment) := by
          apply splitWords_append
          intro d last e first
          cases first
          rw [solid d (List.mem_of_getLast? last), space]
          decide
        have rest := @ih [] (argv ++ splitWords word) (by simp)
          (by simp [pending, Tokens.endWord, splitWords])
        rw [Lexeme.apply, ended, apart, splitWords_cons space, ← List.append_assoc]
        exact rest
      · rename_i other
        have solid' : ∀ d ∈ word ++ [c], isSpace d = false := by
          intro d mem
          rcases List.mem_append.mp mem with old | new
          · exact solid d old
          · rw [List.mem_singleton.mp new]
            exact Bool.eq_false_iff.mpr other
        have pushed : (Lexeme.plain c).apply (pending argv word) = pending argv (word ++ [c]) := by
          simp [Lexeme.apply, Tokens.push, pending]
        have rest := ih argv solid' (by
          rw [splitWords_word (by simp) solid']
          simp [pending, Tokens.endWord])
        have whole : word ++ c :: segment = word ++ [c] ++ segment := by simp
        rw [pushed, whole]
        exact rest

theorem argv_map_ofRegexChar (before after : Option (List Char)) (segment : List Char) :
    SimpleCommand.argv ⟨before, segment.map ofRegexChar, after⟩ = splitWords segment :=
  @run_pending segment [] [] (by simp)

/-! ## White space around a text -/

theorem exists_blanks_trim (text : List Char) :
    ∃ front back, text = front ++ trim text ++ back ∧ (∀ c ∈ front, isSpace c = true) ∧
      ∀ c ∈ back, isSpace c = true := by
  let middle := text.dropWhile isSpace
  refine ⟨text.takeWhile isSpace, (middle.reverse.takeWhile isSpace).reverse, ?_, ?_, ?_⟩
  · have last : trim text ++ (middle.reverse.takeWhile isSpace).reverse = middle := by
      rw [trim, ← List.reverse_append, List.takeWhile_append_dropWhile, List.reverse_reverse]
    rw [List.append_assoc, last, List.takeWhile_append_dropWhile]
  · exact fun c mem => List.all_eq_true.mp List.all_takeWhile c mem
  · exact fun c mem => List.all_eq_true.mp List.all_takeWhile c (List.mem_reverse.mp mem)

theorem run_append (t : Tokens) (ls more : List Lexeme) : t.run (ls ++ more) = (t.run ls).run more :=
  List.foldl_append

/-- Blanks before the end of a word make no difference. -/
theorem endWord_run_blanks {blanks : List Char} (all : ∀ c ∈ blanks, isSpace c = true) {t : Tokens} :
    (t.run (blanks.map ofRegexChar)).endWord = t.endWord := by
  induction blanks generalizing t with
  | nil => rfl
  | cons c blanks ih =>
      obtain ⟨space, all⟩ := List.forall_mem_cons.mp all
      have one : (ofRegexChar c).apply t = t.endWord := by simp [ofRegexChar, space, Lexeme.apply]
      have twice : t.endWord.endWord = t.endWord := by
        unfold Tokens.endWord
        split <;> simp_all
      rw [List.map_cons, Tokens.run, List.foldl_cons, one]
      exact (ih all).trans twice

theorem splitWords_trim (segment : List Char) : splitWords (trim segment) = splitWords segment := by
  obtain ⟨front, back, split, blankFront, blankBack⟩ := exists_blanks_trim segment
  have dropFront : ∀ front more, (∀ c ∈ front, isSpace c = true) →
      splitWords (front ++ more) = splitWords more := by
    intro front more blank
    induction front with
    | nil => rfl
    | cons c front ih =>
        obtain ⟨space, blank⟩ := List.forall_mem_cons.mp blank
        rw [List.cons_append, splitWords_cons space, ih blank]
  have dropBack : ∀ words, splitWords (words ++ back) = splitWords words := by
    intro words
    have read := @run_pending (words ++ back) [] [] (by simp)
    have less := @run_pending words [] [] (by simp)
    rw [List.nil_append, List.nil_append] at read less
    rw [← read, ← less, List.map_append, run_append, endWord_run_blanks blankBack]
  conv_rhs => rw [split]
  rw [List.append_assoc, dropFront front _ blankFront, dropBack]

/-- The segments that the regular expressions read. -/
def regexSegments (text : List Char) : List (List String) :=
  (Tokens.run {} (regexLexemes text)).endSeg.segments

theorem regexLexemes_blanks_append {blanks : List Char} (all : ∀ c ∈ blanks, isSpace c = true) :
    regexLexemes (blanks ++ rest) = blanks.map ofRegexChar ++ regexLexemes rest := by
  induction blanks with
  | nil => rfl
  | cons c blanks ih =>
      obtain ⟨space, all⟩ := List.forall_mem_cons.mp all
      rw [List.cons_append, regexLexemes_cons (ordinary_of_isSpace space), ih all]
      rfl

theorem regexLexemes_append_blanks {blanks : List Char} (all : ∀ c ∈ blanks, isSpace c = true) :
    regexLexemes (text ++ blanks) = regexLexemes text ++ blanks.map ofRegexChar := by
  have starts : ∀ {rest more : List Char} {c : Char}, rest ++ blanks = c :: more →
      isSpace c = false → ∃ rest', rest = c :: rest' := by
    intro rest more c same solid
    cases rest with
    | nil =>
        rw [List.nil_append] at same
        have space := all c (same ▸ List.mem_cons_self)
        rw [solid] at space
        cases space
    | cons d rest =>
        cases same
        exact ⟨rest, rfl⟩
  fun_induction regexLexemes text with
  | case1 rest ih | case2 rest ih | case3 rest ih =>
      simp only [List.cons_append, regexLexemes, ih]
  | case4 rest single ih =>
      rw [List.cons_append, regexLexemes, ih, List.cons_append]
      intro more same
      obtain ⟨rest', starts⟩ := starts same (by decide)
      exact single rest' starts
  | case5 ch rest or and semi pipe ih =>
      rw [List.cons_append, regexLexemes, ih, List.cons_append]
      · intro more here same
        obtain ⟨rest', starts⟩ := starts same (by decide)
        exact or rest' here starts
      · intro more here same
        obtain ⟨rest', starts⟩ := starts same (by decide)
        exact and rest' here starts
      · exact semi
      · exact pipe
  | case6 =>
      have front := @regexLexemes_blanks_append [] blanks all
      simpa [regexLexemes] using front

/-- White space around the text makes no difference. -/
theorem regexSegments_trim (text : List Char) : regexSegments (trim text) = regexSegments text := by
  obtain ⟨front, back, split, blankFront, blankBack⟩ := exists_blanks_trim text
  have endSeg_congr : ∀ {t u : Tokens}, t.endWord = u.endWord → t.endSeg = u.endSeg := by
    intro t u same
    unfold Tokens.endSeg
    rw [same]
  have lead : Tokens.run {} (front.map ofRegexChar) = {} := by
    clear split
    induction front with
    | nil => rfl
    | cons c front ih =>
        obtain ⟨space, blank⟩ := List.forall_mem_cons.mp blankFront
        have one : (ofRegexChar c).apply {} = {} := by
          rw [ofRegexChar, if_pos space]
          rfl
        rw [List.map_cons, Tokens.run, List.foldl_cons, one]
        exact ih blank
  conv_rhs => rw [split]
  unfold regexSegments
  rw [List.append_assoc, regexLexemes_blanks_append blankFront, run_append, lead,
    regexLexemes_append_blanks blankBack, run_append, endSeg_congr (endWord_run_blanks blankBack)]

/-- What is accepted is read-only as the regular expressions read it. -/
theorem readOnly_of_accepted {command : String} (accepted : isReadOnlyBash command = true) :
    ∀ argv ∈ regexSegments command.toList, ReadOnly argv := by
  intro argv mem
  rw [← regexSegments_trim, regexSegments, run_endSeg_segments, List.mem_flatMap] at mem
  obtain ⟨c, cut, segment⟩ := mem
  obtain ⟨same, some⟩ := mem_segments.mp segment
  have body : c.body ∈ (splitSegments [] (trim command.toList)).map (List.map ofRegexChar) := by
    rw [← cutCommands_regexLexemes none]
    exact List.mem_map_of_mem cut
  obtain ⟨piece, listed, read⟩ := List.mem_map.mp body
  have words : c.argv = splitWords (trim piece) := by
    rw [splitWords_trim, ← argv_map_ofRegexChar none none piece, read]
    rfl
  have nonempty : trim piece ≠ [] := by
    intro none
    rw [none] at words
    exact some words
  simp only [isReadOnlyBash, Bool.and_eq_true, List.all_eq_true] at accepted
  have checked := accepted.2 (trim piece)
    (List.mem_filter.mpr ⟨List.mem_map_of_mem listed, decide_eq_true nonempty⟩)
  rw [same, words]
  simpa [ReadOnly] using checked

/-! ## Where the two readings meet -/

/-- No separator goes on into the text. -/
def Apart (rest : List Char) : Prop := ∀ c ∈ rest.head?, c ≠ '|' ∧ c ≠ '&'

theorem regexLexemes_pipe (apart : Apart rest) :
    regexLexemes ('|' :: rest) = .stop ['|'] :: regexLexemes rest := by
  cases rest with
  | nil => rfl
  | cons c rest =>
      have other := (apart c rfl).1
      simp [regexLexemes, other]

theorem regexLexemes_ampersand (apart : Apart rest) :
    regexLexemes ('&' :: rest) = .plain '&' :: regexLexemes rest := by
  cases rest with
  | nil => rfl
  | cons c rest =>
      have other := (apart c rfl).2
      have solid : ofRegexChar '&' = .plain '&' := by decide
      simp [regexLexemes, other, solid]

theorem regexLexemes_separator {raw : List Char} (sep : raw ∈ regexSeparators) (apart : Apart rest) :
    regexLexemes (raw ++ rest) = .stop raw :: regexLexemes rest := by
  simp only [regexSeparators, List.mem_cons, List.not_mem_nil, or_false] at sep
  rcases sep with rfl | rfl | rfl | rfl
  · rfl
  · rfl
  · rfl
  · exact regexLexemes_pipe apart

/-- A separator and what is read of the rest, perhaps behind a single `&`. -/
def EndsAt (rest : List Char) (ls : List Lexeme) : Prop :=
  ∃ before r odd, ls = before ++ .stop r :: (odd ++ regexLexemes rest) ∧
    (odd = [] ∨ odd = [.plain '&'])

theorem EndsAt.cons {ls : List Lexeme} (ends : EndsAt rest ls) (l : Lexeme) : EndsAt rest (l :: ls) := by
  obtain ⟨before, r, odd, rfl, kind⟩ := ends
  exact ⟨l :: before, r, odd, rfl, kind⟩

/-- A separator of the shell that the regular expressions know separates for them, whatever stands
in front. They may have read its first `&` with one that is escaped; the second is then left. -/
theorem regexLexemes_append_separator {raw : List Char} (sep : raw ∈ regexSeparators)
    (apart : Apart rest) (front : List Char) :
    EndsAt rest (regexLexemes (front ++ (raw ++ rest))) := by
  have base : EndsAt rest (regexLexemes (raw ++ rest)) := by
    rw [regexLexemes_separator sep apart]
    exact ⟨[], raw, [], rfl, Or.inl rfl⟩
  fun_induction regexLexemes front with
  | case1 front ih | case2 front ih | case3 front ih => exact ih.cons _
  | case4 front single ih =>
      by_cases two : front = [] ∧ raw = ['|', '|']
      · obtain ⟨rfl, rfl⟩ := two
        refine ⟨[.stop ['|', '|']], ['|'], [], ?_, Or.inl rfl⟩
        exact congrArg (Lexeme.stop _ :: ·) (regexLexemes_pipe apart)
      by_cases one : front = [] ∧ raw = ['|']
      · obtain ⟨rfl, rfl⟩ := one
        exact ⟨[], ['|', '|'], [], rfl, Or.inl rfl⟩
      rw [List.cons_append, regexLexemes]
      · exact ih.cons _
      · intro more same
        cases front with
        | nil =>
            simp only [regexSeparators, List.mem_cons, List.not_mem_nil, or_false] at sep
            rcases sep with rfl | rfl | rfl | rfl <;> simp at one two same
        | cons c front =>
            cases same
            exact single front rfl
  | case5 ch front or and semi pipe ih =>
      by_cases two : ch = '&' ∧ front = [] ∧ raw = ['&', '&']
      · obtain ⟨rfl, rfl, rfl⟩ := two
        refine ⟨[], ['&', '&'], [.plain '&'], ?_, Or.inr rfl⟩
        exact congrArg (Lexeme.stop _ :: ·) (regexLexemes_ampersand apart)
      rw [List.cons_append, regexLexemes]
      · exact ih.cons _
      · exact fun _ here => absurd here pipe
      · intro more here same
        cases front with
        | nil =>
            simp only [regexSeparators, List.mem_cons, List.not_mem_nil, or_false] at sep
            rcases sep with rfl | rfl | rfl | rfl <;> simp [here] at two same
        | cons c front =>
            cases same
            exact and front here rfl
      · exact semi
      · exact pipe
  | case6 => exact base

/-- What is written without quotes is read as it is. -/
theorem regexLexemes_bare {body : List Lexeme}
    (bare : ∀ l ∈ body, isBare l = true ∧ l.Reads) :
    regexLexemes (body.flatMap Lexeme.raw ++ rest) = body ++ regexLexemes rest := by
  induction body with
  | nil => rfl
  | cons l body ih =>
      obtain ⟨⟨here, reads⟩, bare⟩ := List.forall_mem_cons.mp bare
      have one : ∀ more, regexLexemes (l.raw ++ more) = l :: regexLexemes more := by
        intro more
        cases l with
        | plain ch =>
            have solid : isSpace ch = false := by simpa [isBare] using here
            simp only [Lexeme.Reads, List.mem_cons, List.not_mem_nil, or_false, not_or] at reads
            have ordinary : ch ∉ ['|', '&', ';'] := by simp [reads]
            rw [Lexeme.raw, List.singleton_append, regexLexemes_cons ordinary, ofRegexChar, solid]
            rfl
        | blank ch =>
            have space : isSpace ch = true := by
              simp only [Lexeme.Reads, List.mem_cons, List.not_mem_nil, or_false] at reads
              rcases reads with rfl | rfl | rfl <;> decide
            rw [Lexeme.raw, List.singleton_append, regexLexemes_cons (ordinary_of_isSpace space),
              ofRegexChar, if_pos space]
        | quoted | opening | closing | stop => cases here
      rw [List.flatMap_cons, List.append_assoc, one, ih bare, List.cons_append]

theorem apart_of_bare {body : List Lexeme} (some : body ≠ [])
    (bare : ∀ l ∈ body, isBare l = true ∧ l.Reads) : Apart (body.flatMap Lexeme.raw ++ rest) := by
  obtain ⟨l, body, rfl⟩ := List.exists_cons_of_ne_nil some
  obtain ⟨here, reads⟩ := bare l List.mem_cons_self
  intro c first
  cases l with
  | plain ch =>
      simp only [Lexeme.Reads, List.mem_cons, List.not_mem_nil, or_false, not_or] at reads
      cases first
      exact ⟨reads.2.1, reads.2.2.1⟩
  | blank ch =>
      simp only [Lexeme.Reads, List.mem_cons, List.not_mem_nil, or_false] at reads
      cases first
      rcases reads with rfl | rfl | rfl <;> decide
  | quoted | opening | closing | stop => cases here

/-! ## What is seen -/

/-- The body of a simple command, from where it begins to a separator or the end. -/
theorem exists_mem_cutCommands {body more back : List Lexeme} (before : Option (List Char))
    (inside : ∀ l ∈ more, l.isStop = false) (ends : back = [] ∨ ∃ r b, back = .stop r :: b) :
    ∃ c ∈ cutCommands before body (more ++ back), c.body = body ++ more := by
  induction more generalizing body with
  | nil =>
      rw [List.append_nil]
      rcases ends with rfl | ⟨r, b, rfl⟩
      · exact ⟨_, List.mem_cons_self, rfl⟩
      · exact ⟨_, List.mem_cons_self, rfl⟩
  | cons l more ih =>
      obtain ⟨here, inside⟩ := List.forall_mem_cons.mp inside
      obtain ⟨c, mem, same⟩ := @ih (body ++ [l]) inside
      refine ⟨c, ?_, by simpa using same⟩
      rw [List.cons_append, cutCommands_cons here]
      exact mem

theorem mem_cutCommands_append {c : SimpleCommand} {ls : List Lexeme} {r : List Char}
    (mem : c ∈ cutCommands (some r) [] ls) (front : List Lexeme) (before : Option (List Char))
    (body : List Lexeme) : c ∈ cutCommands before body (front ++ .stop r :: ls) := by
  induction front generalizing before body with
  | nil => exact List.mem_cons_of_mem _ mem
  | cons l front ih =>
      cases l with
      | stop raw => exact List.mem_cons_of_mem _ (ih _ _)
      | plain | quoted | opening | closing | blank => exact ih _ _

/-- A separator is read at the front of the rest of the text. -/
theorem regexLexemes_stop {raw : List Char} (sep : raw ∈ regexSeparators) (rest : List Char) :
    ∃ r b, regexLexemes (raw ++ rest) = .stop r :: b := by
  simp only [regexSeparators, List.mem_cons, List.not_mem_nil, or_false] at sep
  rcases sep with rfl | rfl | rfl | rfl
  · exact ⟨_, _, rfl⟩
  · exact ⟨_, _, rfl⟩
  · exact ⟨_, _, rfl⟩
  · by_cases two : rest.head? = some '|'
    · obtain ⟨rest', rfl⟩ : ∃ rest', rest = '|' :: rest' := by
        cases rest with
        | nil => cases two
        | cons c rest =>
            cases two
            exact ⟨rest, rfl⟩
      exact ⟨_, _, rfl⟩
    · refine ⟨['|'], regexLexemes rest, ?_⟩
      rw [List.singleton_append, regexLexemes]
      intro more same
      rw [same] at two
      exact two rfl

/-- The first word starts with a single `&`. -/
theorem ampersand_of_run {body : List Lexeme} (inside : ∀ l ∈ body, l.isStop = false) {t : Tokens}
    (starts : t.argv = [] ∧ t.hasWord = true ∧ t.word.head? = some '&' ∨
      ∃ word, t.argv.head? = some word ∧ word.toList.head? = some '&') :
    ∃ word, (t.run body).endWord.argv.head? = some word ∧ word.toList.head? = some '&' := by
  have ended : ∀ {u : Tokens}, (u.argv = [] ∧ u.hasWord = true ∧ u.word.head? = some '&' ∨
      ∃ word, u.argv.head? = some word ∧ word.toList.head? = some '&') →
      ∃ word, u.endWord.argv.head? = some word ∧ word.toList.head? = some '&' := by
    intro u starts
    unfold Tokens.endWord
    rcases starts with ⟨none, has, first⟩ | ⟨word, first, amp⟩
    · rw [if_pos has]
      exact ⟨String.ofList u.word, by simp [none], by simpa using first⟩
    · refine ⟨word, ?_, amp⟩
      split
      · simp [List.head?_append, first]
      · exact first
  induction body generalizing t with
  | nil => exact ended starts
  | cons l body ih =>
      obtain ⟨here, inside⟩ := List.forall_mem_cons.mp inside
      apply ih inside
      rcases starts with ⟨none, has, first⟩ | other
      · cases l with
        | plain ch | quoted ch raw =>
            refine Or.inl ⟨none, rfl, ?_⟩
            simp [Lexeme.apply, Tokens.push, List.head?_append, first]
        | opening | closing => exact Or.inl ⟨none, by simp [Lexeme.apply, has], first⟩
        | blank => exact Or.inr (ended (Or.inl ⟨none, has, first⟩))
        | stop => cases here
      · cases l with
        | plain | quoted | opening | closing => exact Or.inr other
        | blank => exact Or.inr (ended (Or.inr other))
        | stop => cases here

theorem ReadOnly.head_mem {argv : List String} (readOnly : ReadOnly argv) :
    ∃ verb ∈ readOnlyVerbs, argv.head? = some verb := by
  have first := readOnly.1
  cases argv with
  | nil => cases first
  | cons word argv => exact ⟨word, by simpa using first, rfl⟩

/-- What the regular expressions read where a bare command stands: an `&` may be left in front. -/
theorem exists_regex_command {front back body : List Lexeme} {before : Option (List Char)}
    (starts : front = [] ∧ before = none ∨ ∃ raw f, front = f ++ [.stop raw] ∧ before = some raw)
    (ends : back = [] ∨ ∃ raw b, back = .stop raw :: b ∧ raw ∈ regexSeparators)
    (known : ∀ raw ∈ before, raw ∈ regexSeparators) (some : body ≠ [])
    (inside : ∀ l ∈ body, l.isStop = false) (bare : ∀ l ∈ body, isBare l = true ∧ l.Reads) :
    ∃ c ∈ cutCommands none [] (regexLexemes ((front ++ body ++ back).flatMap Lexeme.raw)),
      c.body = body ∨ c.body = .plain '&' :: body := by
  let rest := back.flatMap Lexeme.raw
  have tail : regexLexemes rest = [] ∨ ∃ r b, regexLexemes rest = .stop r :: b := by
    rcases ends with rfl | ⟨raw, b, rfl, sep⟩
    · exact Or.inl rfl
    · exact Or.inr (regexLexemes_stop sep (b.flatMap Lexeme.raw))
  rw [List.flatMap_append, List.flatMap_append, List.append_assoc]
  rcases starts with ⟨rfl, -⟩ | ⟨raw, f, rfl, same⟩
  · rw [List.flatMap_nil, List.nil_append, regexLexemes_bare bare]
    obtain ⟨c, mem, read⟩ := @exists_mem_cutCommands [] _ _ none inside tail
    exact ⟨c, mem, Or.inl read⟩
  · obtain ⟨others, r, odd, read, kind⟩ := regexLexemes_append_separator (known raw same)
      (@apart_of_bare rest _ some bare) (f.flatMap Lexeme.raw)
    have whole : (f ++ [Lexeme.stop raw]).flatMap Lexeme.raw = f.flatMap Lexeme.raw ++ raw := by
      simp [Lexeme.raw]
    rw [whole, List.append_assoc, read, regexLexemes_bare bare, ← List.append_assoc odd]
    have inside' : ∀ l ∈ odd ++ body, l.isStop = false := by
      intro l mem
      rcases List.mem_append.mp mem with left | right
      · rcases kind with rfl | rfl
        · cases left
        · rw [List.mem_singleton.mp left]
          rfl
      · exact inside l right
    obtain ⟨c, mem, read⟩ := @exists_mem_cutCommands [] _ _ (.some r) inside' tail
    refine ⟨c, mem_cutCommands_append mem others none [], ?_⟩
    rcases kind with rfl | rfl
    · exact Or.inl read
    · exact Or.inr read

/-- What is not hidden is read-only in a command that is accepted. -/
theorem readOnly_of_seen {command : String} (accepted : isReadOnlyBash command = true)
    {c : SimpleCommand} (mem : c ∈ simpleCommands command) (seen : ¬ Hidden c) (words : c.argv ≠ []) :
    ReadOnly c.argv := by
  obtain ⟨before, body, after⟩ := c
  obtain ⟨knownBefore, knownAfter, bare⟩ := not_not.mp seen
  obtain ⟨inside, front, back, split, starts, ends⟩ := split_of_mem_cutCommands mem (by simp)
  rw [List.nil_append] at split
  have reads : ∀ l ∈ body, isBare l = true ∧ l.Reads := by
    intro l member
    refine ⟨bare l member, reads_of_mem_lexemes none command.toList l ?_⟩
    rw [split]
    exact List.mem_append_left _ (List.mem_append_right _ member)
  have some : body ≠ [] := by
    intro none
    subst none
    exact words rfl
  have ends' : back = [] ∨ ∃ raw b, back = .stop raw :: b ∧ raw ∈ regexSeparators := by
    rcases ends with none | ⟨raw, b, same, isAfter⟩
    · exact Or.inl none
    · exact Or.inr ⟨raw, b, same, knownAfter raw isAfter⟩
  obtain ⟨d, cut, read⟩ := exists_regex_command starts ends' knownBefore some inside reads
  rw [← split, flatMap_raw_lexemes] at cut
  have checked : d.argv ≠ [] → ReadOnly d.argv := by
    intro nonempty
    apply readOnly_of_accepted accepted
    rw [regexSegments, run_endSeg_segments]
    exact List.mem_flatMap.mpr ⟨d, cut, mem_segments.mpr ⟨rfl, nonempty⟩⟩
  rcases read with same | ampersand
  · have argv : d.argv = SimpleCommand.argv ⟨before, body, after⟩ := by
      unfold SimpleCommand.argv
      rw [same]
    rw [argv] at checked
    exact checked words
  · -- no allowed verb starts with the `&` that was left
    obtain ⟨word, first, amp⟩ := ampersand_of_run inside (t := pending [] ['&']) (Or.inl ⟨rfl, rfl, rfl⟩)
    have argv : d.argv = (Tokens.run (pending [] ['&']) body).endWord.argv := by
      unfold SimpleCommand.argv
      rw [ampersand]
      rfl
    have nonempty : d.argv ≠ [] := by
      intro none
      rw [argv] at none
      rw [none] at first
      cases first
    obtain ⟨verb, allowed, same⟩ := (checked nonempty).head_mem
    rw [argv, first] at same
    cases same
    have none : ∀ verb ∈ readOnlyVerbs, verb.toList.head? ≠ .some '&' := by decide
    exact absurd amp (none word allowed)

/-- The check is right about a command it accepts if and only if what it cannot see there is
read-only. The tokenizer reads nothing of a text beyond its limit. -/
theorem readOnly_iff {command : String} (accepted : isReadOnlyBash command = true) :
    (∀ argv ∈ tokenizeShell command, ReadOnly argv) ↔
      (codeUnits command.toList ≤ maxLen →
        ∀ c ∈ simpleCommands command, Hidden c → c.argv ≠ [] → ReadOnly c.argv) := by
  constructor
  · intro right short c mem _ words
    apply right
    rw [tokenizeShell_eq short]
    exact List.mem_flatMap.mpr ⟨c, mem, mem_segments.mpr ⟨rfl, words⟩⟩
  · intro hidden argv mem
    by_cases short : codeUnits command.toList ≤ maxLen
    · rw [tokenizeShell_eq short, List.mem_flatMap] at mem
      obtain ⟨c, member, segment⟩ := mem
      obtain ⟨rfl, words⟩ := mem_segments.mp segment
      by_cases unseen : Hidden c
      · exact hidden short c member unseen words
      · exact readOnly_of_seen accepted member unseen words
    · rw [tokenizeShell, if_pos (Or.inr (Nat.lt_of_not_le short))] at mem
      cases mem

/-- The quoted command is hidden and read-only, the other one is seen. -/
theorem readOnly_quoted_segment :
    isReadOnlyBash "cat a | grep 'b'" = true ∧
      ∀ argv ∈ tokenizeShell "cat a | grep 'b'", ReadOnly argv :=
  ⟨by decide, (readOnly_iff (by decide)).mpr (by decide)⟩

/-- `grep` is all that the check reads; the shell also runs `rm`, and the reviewer's gate lets the
call pass. -/
theorem newline_hides_program :
    isReadOnlyBash "grep a\nrm -rf b" = true ∧
      tokenizeShell "grep a\nrm -rf b" = [["grep", "a"], ["rm", "-rf", "b"]] ∧
      ¬ ReadOnly ["rm", "-rf", "b"] ∧
      checkReviewerReadOnly "Bash" [("command", .str "grep a\nrm -rf b")] = none := by
  decide

end Opensquid.Guard
