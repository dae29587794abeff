import Mathlib.Data.List.Basic
import Mathlib.Logic.Function.Basic
import Opensquid.Lib.Steps

/-!
# Racing updates

Processes that read a stored value, change it and store what comes out, with nothing to keep the
others off meanwhile. An update is lost if another process has read before it and stores after it.

`Racing.sound`: whatever is stored or answered comes of a part of the calls before, in their order;
and if at most `n` others store while a process has its value, of `n + 1` updates one lasts. With
`n = 0` that is all of them (`eq_of_lasting`).
-/

namespace Opensquid.Lib

/-- A call under way: the value it has read, and how many had stored by then. -/
structure Begun (σ α : Type*) where
  call : α
  seen : σ
  since : Nat

/-- `done` holds the calls that have stored, with their answers. -/
structure Racing (ι σ α β : Type*) where
  stored : σ
  held : ι → Option (Begun σ α)
  done : List (α × β)

inductive Racing.Access (ι α : Type*)
  | load (i : ι) (call : α) (readable : Bool)
  | save (i : ι)
  | drop (i : ι)

namespace Racing

variable {ι σ α β : Type*} {fresh : σ} {update : σ → α → β × σ} {s t : Racing ι σ α β}

def opening (fresh : σ) : Racing ι σ α β := ⟨fresh, fun _ => none, []⟩

/-- One access of one process; the value is `fresh` for one that cannot read it. -/
def access [DecidableEq ι] (fresh : σ) (update : σ → α → β × σ) (s : Racing ι σ α β) :
    Access ι α → Option (Racing ι σ α β)
  | .load i call readable =>
      if (s.held i).isSome then none
      else
        some { s with
          held := Function.update s.held i
            (some ⟨call, if readable then s.stored else fresh, s.done.length⟩) }
  | .save i =>
      (s.held i).map fun b =>
        { stored := (update b.seen b.call).2
          held := Function.update s.held i none
          done := s.done ++ [(b.call, (update b.seen b.call).1)] }
  | .drop i => (s.held i).map fun _ => { s with held := Function.update s.held i none }

/-- At most so many others store while a process has its value, which it could read. -/
def Spared (slack : Option Nat) (s : Racing ι σ α β) : Access ι α → Prop
  | .load _ _ readable => slack.isSome → readable = true
  | .save i => ∀ n ∈ slack, ∀ b ∈ s.held i, s.done.length ≤ b.since + n
  | .drop _ => True

instance (slack : Option Nat) (s : Racing ι σ α β) : DecidablePred (Spared slack s)
  | .load _ _ _ => inferInstanceAs (Decidable (_ → _))
  | .save _ => inferInstanceAs (Decidable (∀ _ ∈ _, ∀ _ ∈ _, _))
  | .drop _ => inferInstanceAs (Decidable True)

/-- The value comes of a part of the calls. -/
def Comes (fresh : σ) (update : σ → α → β × σ) (slack : Option Nat) (calls : List (α × β))
    (value : σ) : Prop :=
  ∃ lasting : List α, lasting.Sublist (calls.map Prod.fst) ∧
    value = lasting.foldl (fun value call => (update value call).2) fresh ∧
    ∀ n ∈ slack, calls.length ≤ (n + 1) * lasting.length

/-- The answer is given on a value that comes of a part of the calls before. -/
def Answered (fresh : σ) (update : σ → α → β × σ) (slack : Option Nat) (before : List (α × β))
    (entry : α × β) : Prop :=
  ∃ lasting : List α, lasting.Sublist (before.map Prod.fst) ∧
    entry.2 = (update (lasting.foldl (fun value call => (update value call).2) fresh) entry.1).1 ∧
    ∀ n ∈ slack, before.length < (n + 1) * (lasting.length + 1)

structure Sound (fresh : σ) (update : σ → α → β × σ) (slack : Option Nat)
    (s : Racing ι σ α β) : Prop where
  stored : Comes fresh update slack s.done s.stored
  held : ∀ i, ∀ b ∈ s.held i, b.since ≤ s.done.length ∧
    Comes fresh update slack (s.done.take b.since) b.seen
  done : ∀ before entry after, s.done = before ++ entry :: after →
    Answered fresh update slack before entry

theorem sound_opening {slack : Option Nat} :
    (opening fresh : Racing ι σ α β).Sound fresh update slack := by
  refine ⟨⟨[], List.nil_sublist _, rfl, fun n _ => Nat.zero_le _⟩, fun i b held => ?_, ?_⟩
  · cases held
  · intro before entry after split
    exact absurd split (by simp [opening])

theorem sound_access [DecidableEq ι] {slack : Option Nat} {e : Access ι α}
    (sound : s.Sound fresh update slack) (spared : s.Spared slack e)
    (fire : s.access fresh update e = some t) : t.Sound fresh update slack := by
  obtain ⟨stored, held, done⟩ := sound
  cases e with
  | load i call readable =>
      rw [access, Option.ite_none_left_eq_some] at fire
      obtain ⟨-, same⟩ := fire
      cases same
      refine ⟨stored, fun j b known => ?_, done⟩
      dsimp only at known ⊢
      by_cases same : j = i
      · rw [same, Function.update_self] at known
        cases known
        refine ⟨Nat.le_refl _, ?_⟩
        dsimp only
        rw [List.take_length]
        split
        · exact stored
        next lost =>
          refine ⟨[], List.nil_sublist _, rfl, fun n bound => ?_⟩
          exact absurd (spared (Option.isSome_of_mem bound)) lost
      · rw [Function.update_of_ne same] at known
        exact held j b known
  | save i =>
      obtain ⟨b, known, rfl⟩ := Option.map_eq_some_iff.mp fire
      obtain ⟨past, lasting, part, value, bound⟩ := held i b known
      have within : ∀ n ∈ slack, s.done.length < (n + 1) * (lasting.length + 1) := by
        intro n limit
        have length := bound n limit
        have others := spared n limit b known
        rw [List.length_take, Nat.min_eq_left past] at length
        rw [Nat.mul_succ]
        omega
      have part : lasting.Sublist (s.done.map Prod.fst) :=
        part.trans ((List.take_sublist _ _).map Prod.fst)
      refine ⟨?_, fun j b' known' => ?_, ?_⟩
      · refine ⟨lasting ++ [b.call], ?_, ?_, fun n limit => ?_⟩
        · rw [List.map_append]
          exact part.append (List.Sublist.refl _)
        · rw [List.foldl_append, ← value]
          rfl
        · rw [List.length_append, List.length_append]
          exact within n limit
      · dsimp only at known' ⊢
        by_cases same : j = i
        · rw [same, Function.update_self] at known'
          cases known'
        · rw [Function.update_of_ne same] at known'
          obtain ⟨past', comes⟩ := held j b' known'
          rw [List.take_append_of_le_length past', List.length_append]
          exact ⟨Nat.le_add_right_of_le past', comes⟩
      · intro before entry after split
        rcases List.eq_nil_or_concat after with rfl | ⟨rest, last, rfl⟩
        · obtain ⟨rfl, same⟩ := List.append_inj' split rfl
          cases same
          exact ⟨lasting, part, by rw [← value], within⟩
        · rw [List.concat_eq_append, ← List.cons_append, ← List.append_assoc] at split
          exact done before entry rest (List.append_inj' split rfl).1
  | drop i =>
      obtain ⟨b, -, rfl⟩ := Option.map_eq_some_iff.mp fire
      refine ⟨stored, fun j b' known => ?_, done⟩
      dsimp only at known
      by_cases same : j = i
      · rw [same, Function.update_self] at known
        cases known
      · rw [Function.update_of_ne same] at known
        exact held j b' known

theorem sound [DecidableEq ι] {slack : Option Nat}
    (run : Steps (access fresh update) (Spared slack) (opening fresh) s) :
    s.Sound fresh update slack :=
  run.invariant sound_opening fun _ _ _ sound spared fire => sound_access sound spared fire

/-- Where nothing interferes nothing is lost. -/
theorem eq_of_lasting {before : List (α × β)} {lasting : List α}
    (part : lasting.Sublist (before.map Prod.fst))
    (bound : before.length < (0 + 1) * (lasting.length + 1)) : lasting = before.map Prod.fst := by
  refine part.eq_of_length_le ?_
  rw [List.length_map]
  omega

end Racing

end Opensquid.Lib
