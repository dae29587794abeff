import Opensquid.Lib.Occurrence
import Opensquid.Lib.Scan

/-!
# The identity of a process

What `ps` and PowerShell print of a pid is read as the group and the start of the process that has
it. Their errors are passed on, and one of them can be taken to say that no process has the pid.

`readProcessIdentity_of_printed`: what is printed of a process is read back as this process.
-/

namespace Opensquid.Processes

open Opensquid.Lib

structure ProcessIdentity where
  processGroupId : Nat
  startIdentity : String
  deriving DecidableEq, Repr

/-- The processes of the machine by pid. -/
abbrev Machine := Int → Option ProcessIdentity

/-- An exit status, or the name of a system error. -/
inductive ErrorCode
  | status (n : Int)
  | name (text : String)
  deriving DecidableEq, Repr

structure Thrown where
  code : Option ErrorCode := none
  message : String
  deriving DecidableEq, Repr

/-- How a call of `ps` or PowerShell ends. -/
inductive Exec
  | printed (stdout : String)
  | failed (error : Thrown)
  deriving DecidableEq, Repr

/-- `Number(text)` of a text of decimal digits. -/
def number (text : List Char) : Option Nat :=
  if (trim text).all Char.isDigit then some (Nat.ofDigitChars 10 (trim text) 0) else none

/-- `\s+(.+?)\s*$`: without its last blanks a rest is one line; a rest that is blank is matched by
one of the blanks in front of it. -/
def matchLine (text : List Char) : Option (List Char) :=
  let blanks := text.takeWhile isSpace
  let line := trim text
  if blanks = [] then none
  else if line = [] then (blanks.tail.reverse.find? (!isLineTerminator ·)).map ([·])
  else if line.any isLineTerminator then none
  else some line

/-- `/^\s*(\d+)\s+(\d+)\s+(.+?)\s*$/u`. -/
def matchPs (stdout : List Char) : Option (List Char × List Char × List Char) :=
  let first := stdout.dropWhile isSpace
  let gap := first.dropWhile Char.isDigit
  let second := gap.dropWhile isSpace
  if first.takeWhile Char.isDigit = [] ∨ gap.takeWhile isSpace = [] ∨
      second.takeWhile Char.isDigit = [] then none
  else (matchLine (second.dropWhile Char.isDigit)).map fun line =>
    (first.takeWhile Char.isDigit, second.takeWhile Char.isDigit, line)

/-- A positive safe integer. -/
def IsPid (pid : Int) : Prop := 0 < pid ∧ pid ≤ 9007199254740991

instance (pid : Int) : Decidable (IsPid pid) := inferInstanceAs (Decidable (_ ∧ _))

def readWindows (pid : Int) (stdout : List Char) : Except Thrown ProcessIdentity :=
  let parts := (trim stdout).splitOn '|'
  let ticks := parts.getD 1 []
  if number (parts.getD 0 []) ≠ some pid.toNat ∨ ticks = [] then
    .error { message := "could not validate owned Windows process " ++ toString pid }
  else .ok ⟨pid.toNat, String.ofList ticks⟩

def readPs (pid : Int) (stdout : List Char) : Except Thrown ProcessIdentity :=
  match matchPs stdout with
  | some (first, second, line) =>
      if Nat.ofDigitChars 10 first 0 ≠ pid.toNat then
        .error { message := "could not validate owned process " ++ toString pid }
      else .ok ⟨Nat.ofDigitChars 10 second 0, String.ofList line⟩
  | none => .error { message := "could not validate owned process " ++ toString pid }

def readProcessIdentity (windows : Bool) (pid : Int) (exec : Exec) :
    Except Thrown ProcessIdentity :=
  if ¬ IsPid pid then .error { message := "invalid owned process pid: " ++ toString pid }
  else
    match exec with
    | .failed error => .error error
    | .printed stdout =>
        if windows then readWindows pid stdout.toList else readPs pid stdout.toList

def missingWords : List String :=
  ["no process found", "cannot find a process", "could not find process"]

def isMissingOwnedProcess (error : Thrown) : Bool :=
  error.code = some (.status 1) ||
    missingWords.any fun words => words.toList <:+: error.message.toList.map foldCase

/-! ## What is read back -/

/-- What is printed of a process: by PowerShell the pid and the ticks of its start, by `ps` the
pid, the group and the start in columns. -/
inductive Printed : Bool → Nat → ProcessIdentity → List Char → Prop
  | powershell {pid : Nat} (ticks : Nat) :
      Printed true pid ⟨pid, String.ofList (Nat.toDigits 10 ticks)⟩
        (Nat.toDigits 10 pid ++ '|' :: Nat.toDigits 10 ticks)
  | ps {pid : Nat} {identity : ProcessIdentity} {lead gap gap' trail : List Char}
      (blank : ∀ c ∈ lead ++ gap ++ gap' ++ trail, isSpace c = true)
      (apart : gap ≠ [] ∧ gap' ≠ [])
      (oneLine : identity.startIdentity.toList.any isLineTerminator = false)
      (first : ∃ c ∈ identity.startIdentity.toList.head?, isSpace c = false)
      (last : ∃ c ∈ identity.startIdentity.toList.getLast?, isSpace c = false) :
      Printed false pid identity
        (lead ++ (Nat.toDigits 10 pid ++ (gap ++ (Nat.toDigits 10 identity.processGroupId ++
          (gap' ++ (identity.startIdentity.toList ++ trail))))))

variable {pid : Int} {n : Nat} {c : Char}

theorem isDigit_of_mem_toDigits (mem : c ∈ Nat.toDigits 10 n) : c.isDigit = true :=
  Nat.isDigit_of_mem_toDigits (by decide) (by decide) mem

theorem not_isSpace_of_mem_toDigits (mem : c ∈ Nat.toDigits 10 n) : isSpace c = false :=
  not_isSpace_of_isWordChar (isWordChar_of_isDigit (isDigit_of_mem_toDigits mem))

theorem not_isDigit_of_isSpace (space : isSpace c = true) : c.isDigit = false := by
  refine Bool.eq_false_iff.mpr fun digit => ?_
  rw [not_isSpace_of_isWordChar (isWordChar_of_isDigit digit)] at space
  cases space

/-- A column ends where what follows it starts. -/
theorem span_append {p : Char → Bool} {column rest : List Char} (all : ∀ c ∈ column, p c = true)
    (next : ∀ c ∈ rest.head?, p c = false) :
    (column ++ rest).takeWhile p = column ∧ (column ++ rest).dropWhile p = rest := by
  rw [List.takeWhile_append_of_pos all, List.dropWhile_append_of_pos all]
  cases rest with
  | nil => exact ⟨List.append_nil column, rfl⟩
  | cons c rest =>
      have other : ¬ p c = true := Bool.eq_false_iff.mp (next c rfl)
      rw [List.takeWhile_cons_of_neg other, List.dropWhile_cons_of_neg other, List.append_nil]
      exact ⟨rfl, rfl⟩

theorem head_append {p : Char → Prop} {column : List Char} (solid : column ≠ [])
    (all : ∀ c ∈ column, p c) (rest : List Char) : ∀ c ∈ (column ++ rest).head?, p c := by
  rw [List.head?_append_of_ne_nil _ solid]
  exact fun c here => all c (List.mem_of_mem_head? here)

theorem trim_toDigits (n : Nat) : trim (Nat.toDigits 10 n) = Nat.toDigits 10 n :=
  trim_eq_self (fun _ first => not_isSpace_of_mem_toDigits (List.mem_of_mem_head? first))
    fun _ last => not_isSpace_of_mem_toDigits (List.mem_of_mem_getLast? last)

theorem number_toDigits (n : Nat) : number (Nat.toDigits 10 n) = some n := by
  rw [number, trim_toDigits, if_pos (List.all_eq_true.mpr fun c => isDigit_of_mem_toDigits),
    Nat.ofDigitChars_ten_toDigits]

theorem readWindows_of_printed (ticks : Nat) :
    readWindows pid (Nat.toDigits 10 pid.toNat ++ '|' :: Nat.toDigits 10 ticks) =
      .ok ⟨pid.toNat, String.ofList (Nat.toDigits 10 ticks)⟩ := by
  have free : ∀ n, '|' ∉ Nat.toDigits 10 n := fun n mem => by
    cases isDigit_of_mem_toDigits mem
  have whole : trim (Nat.toDigits 10 pid.toNat ++ '|' :: Nat.toDigits 10 ticks) =
      Nat.toDigits 10 pid.toNat ++ '|' :: Nat.toDigits 10 ticks := by
    refine trim_eq_self (head_append Nat.toDigits_ne_nil (fun _ => not_isSpace_of_mem_toDigits) _)
      fun c last => ?_
    rw [List.getLast?_append_cons, List.getLast?_cons_of_ne_nil Nat.toDigits_ne_nil] at last
    exact not_isSpace_of_mem_toDigits (List.mem_of_mem_getLast? last)
  rw [readWindows, whole, List.splitOn_append_cons_self, List.splitOn_eq_singleton (free _),
    List.splitOn_eq_singleton (free _)]
  exact if_neg (not_or.mpr ⟨not_not.mpr (number_toDigits _), Nat.toDigits_ne_nil⟩)

theorem matchLine_of_printed {gap line trail : List Char}
    (blank : ∀ c ∈ gap ++ trail, isSpace c = true) (apart : gap ≠ [])
    (oneLine : line.any isLineTerminator = false)
    (first : ∀ c ∈ line.head?, isSpace c = false) (last : ∀ c ∈ line.getLast?, isSpace c = false)
    (solid : line ≠ []) : matchLine (gap ++ (line ++ trail)) = some line := by
  have next : ∀ c ∈ (line ++ trail).head?, isSpace c = false := by
    rw [List.head?_append_of_ne_nil _ solid]
    exact first
  have front : ∀ c ∈ gap, isSpace c = true := fun c mem => blank c (List.mem_append_left _ mem)
  rw [matchLine, trim_append blank first last solid, (span_append front next).1,
    if_neg apart, if_neg solid, if_neg (Bool.eq_false_iff.mp oneLine)]

theorem matchPs_of_columns {lead first gap second rest : List Char}
    (blank : ∀ c ∈ lead ++ gap, isSpace c = true) (apart : gap ≠ [])
    (digits : ∀ c ∈ first ++ second, c.isDigit = true) (solid : first ≠ [] ∧ second ≠ [])
    (next : ∀ c ∈ rest.head?, c.isDigit = false) :
    matchPs (lead ++ (first ++ (gap ++ (second ++ rest)))) =
      (matchLine rest).map fun line => (first, second, line) := by
  have blanks : ∀ column : List Char, column ⊆ lead ++ gap → ∀ c ∈ column, isSpace c = true :=
    fun _ inside c mem => blank c (inside mem)
  have numbers : ∀ column : List Char, column ⊆ first ++ second → ∀ c ∈ column, c.isDigit = true :=
    fun _ inside c mem => digits c (inside mem)
  have notSpace : ∀ column : List Char, column ⊆ first ++ second →
      ∀ c ∈ column, isSpace c = false :=
    fun _ inside c mem => not_isSpace_of_isWordChar
      (isWordChar_of_isDigit (digits c (inside mem)))
  have atFirst := span_append (blanks lead (List.subset_append_left _ _))
    (head_append solid.1 (notSpace first (List.subset_append_left _ _)) (gap ++ (second ++ rest)))
  have atGap := span_append (numbers first (List.subset_append_left _ _))
    (head_append apart (fun c mem => not_isDigit_of_isSpace
      (blanks gap (List.subset_append_right _ _) c mem)) (second ++ rest))
  have atSecond := span_append (blanks gap (List.subset_append_right _ _))
    (head_append solid.2 (notSpace second (List.subset_append_right _ _)) rest)
  have atRest := span_append (numbers second (List.subset_append_right _ _)) next
  rw [matchPs, atFirst.2, atGap.1, atGap.2, atSecond.1, atSecond.2, atRest.1, atRest.2]
  exact if_neg (by simp [solid.1, solid.2, apart])

theorem readPs_of_printed {identity : ProcessIdentity} {stdout : List Char}
    (printed : Printed false pid.toNat identity stdout) : readPs pid stdout = .ok identity := by
  cases printed with
  | @ps _ _ lead gap gap' trail blank apart oneLine first last =>
      obtain ⟨c, starts, solidFirst⟩ := first
      obtain ⟨d, ends, solidLast⟩ := last
      have solid : identity.startIdentity.toList ≠ [] := by
        rintro empty
        rw [empty] at starts
        cases starts
      have line : matchLine (gap' ++ (identity.startIdentity.toList ++ trail)) =
          some identity.startIdentity.toList :=
        matchLine_of_printed (fun x mem => blank x (by
            rcases List.mem_append.mp mem with mem | mem
            · exact List.mem_append_left _ (List.mem_append_right _ mem)
            · exact List.mem_append_right _ mem))
          apart.2 oneLine (fun x here => Option.mem_unique here starts ▸ solidFirst)
          (fun x here => Option.mem_unique here ends ▸ solidLast) solid
      have columns := @matchPs_of_columns lead (Nat.toDigits 10 pid.toNat) gap
        (Nat.toDigits 10 identity.processGroupId) _
        (fun x mem => blank x (List.mem_append_left _ (List.mem_append_left _ mem))) apart.1
        (fun x mem => (List.mem_append.mp mem).elim isDigit_of_mem_toDigits isDigit_of_mem_toDigits)
        ⟨Nat.toDigits_ne_nil, Nat.toDigits_ne_nil⟩
        (head_append apart.2 (fun x mem => not_isDigit_of_isSpace (blank x
          (List.mem_append_left _ (List.mem_append_right _ mem))))
          (identity.startIdentity.toList ++ trail))
      rw [line, Option.map_some] at columns
      rw [readPs, columns]
      dsimp only
      rw [Nat.ofDigitChars_ten_toDigits, Nat.ofDigitChars_ten_toDigits, String.ofList_toList,
        if_neg (not_not.mpr rfl)]

/-- What is printed of the process that has a pid is read as this process. -/
theorem readProcessIdentity_of_printed {windows : Bool} {identity : ProcessIdentity}
    {stdout : String} (valid : IsPid pid)
    (printed : Printed windows pid.toNat identity stdout.toList) :
    readProcessIdentity windows pid (.printed stdout) = .ok identity := by
  rw [readProcessIdentity, if_neg (not_not.mpr valid)]
  cases windows with
  | false => exact readPs_of_printed printed
  | true =>
      generalize stdout.toList = text at printed ⊢
      cases printed with
      | powershell ticks => exact readWindows_of_printed ticks

/-! ## Who says that a process is missing -/

theorem mem_intText (held : c ∈ (toString pid).toList) : c.isDigit = true ∨ c = '-' := by
  cases pid with
  | ofNat n =>
      have digits : (toString (Int.ofNat n)).toList = Nat.toDigits 10 n := String.toList_ofList
      rw [digits] at held
      exact .inl (isDigit_of_mem_toDigits held)
  | negSucc n =>
      have digits : (toString (Int.negSucc n)).toList = '-' :: Nat.toDigits 10 (n + 1) := by
        change ("-" ++ Nat.repr (n + 1)).toList = _
        rw [String.toList_append, Nat.repr, String.toList_ofList, String.toList_ofList]
        rfl
      rw [digits] at held
      rcases List.mem_cons.mp held with rfl | held
      · exact .inr rfl
      · exact .inl (isDigit_of_mem_toDigits held)

theorem foldCase_of_intText (held : c ∈ (toString pid).toList) : foldCase c = c := by
  rcases mem_intText held with digit | rfl
  · have low : c.val.toNat ≤ 57 := by
      rw [Char.isDigit, Bool.and_eq_true, decide_eq_true_eq, decide_eq_true_eq] at digit
      exact digit.2
    have kelvin : c ≠ '\u212a' := by
      rintro rfl
      exact absurd low (by decide)
    have longS : c ≠ '\u017f' := by
      rintro rfl
      exact absurd low (by decide)
    rw [foldCase, if_neg kelvin, if_neg longS]
    delta Char.toLower
    rw [dif_neg]
    exact fun upper => absurd (le_trans upper.1 low) (by decide)
  · decide

/-- A message that ends in a pid names a missing process only in front of it. -/
theorem not_missing_of_text {text : String}
    (silent : ∀ words ∈ missingWords, ¬ words.toList <:+: text.toList.map foldCase) :
    isMissingOwnedProcess { message := text ++ toString pid } = false := by
  have letters : ∀ words ∈ missingWords, words.toList ≠ [] ∧
      words.toList.all (fun c => !c.isDigit && c != '-') = true := by decide
  refine Bool.eq_false_iff.mpr fun missing => ?_
  rw [isMissingOwnedProcess, Bool.or_eq_true, List.any_eq_true] at missing
  rcases missing with coded | ⟨words, mem, inside⟩
  · cases of_decide_eq_true coded
  · have whole := of_decide_eq_true inside
    rw [String.toList_append, List.map_append] at whole
    refine silent words mem (infix_of_append (letters words mem).1 (fun c held digit => ?_) whole)
    obtain ⟨d, there, rfl⟩ := List.mem_map.mp digit
    rw [foldCase_of_intText there] at held
    have plain := List.all_eq_true.mp (letters words mem).2 d held
    rw [Bool.and_eq_true, Bool.not_eq_true', bne_iff_ne] at plain
    obtain ⟨noDigit, noMinus⟩ := plain
    rcases mem_intText there with digit | minus
    · rw [noDigit] at digit
      cases digit
    · exact noMinus minus

/-- Only `ps` and PowerShell report a missing process. -/
theorem failed_of_missing {windows : Bool} {exec : Exec} {error : Thrown}
    (read : readProcessIdentity windows pid exec = .error error)
    (missing : isMissingOwnedProcess error = true) : exec = .failed error := by
  have own : ∀ text ∈ ["invalid owned process pid: ", "could not validate owned Windows process ",
      "could not validate owned process "], error ≠ { message := text ++ toString pid } := by
    rintro text mem rfl
    have silent : ∀ text ∈ ["invalid owned process pid: ",
        "could not validate owned Windows process ", "could not validate owned process "],
        ∀ words ∈ missingWords, ¬ words.toList <:+: text.toList.map foldCase := by decide
    rw [not_missing_of_text (silent text mem)] at missing
    cases missing
  unfold readProcessIdentity at read
  split at read
  · cases read
    exact absurd rfl (own _ (by decide))
  · cases exec with
    | failed failure => cases read; rfl
    | printed stdout =>
        dsimp only at read
        split at read
        · rw [readWindows] at read
          split at read
          · cases read
            exact absurd rfl (own _ (by decide))
          · cases read
        · rw [readPs] at read
          split at read
          · split at read
            · cases read
              exact absurd rfl (own _ (by decide))
            · cases read
          · cases read
            exact absurd rfl (own _ (by decide))

end Opensquid.Processes
