import Opensquid.Lib.Steps
import Opensquid.Machine.Legal

/-!
# Runs whose transitions are clear

`reached_legal`: a tidy chart starts legal, and stays so in every run of steps and macrosteps whose
transitions are clear. A transition is if its way down, from where its exit begins to its target
and on to the leaf that a deep history remembers, passes no parallel with another region; that of a
join also if there is none from there down to the parallel that it exits.

The condition is asked of the transitions that a run takes, with the memory that it has then: a chart
may have others.
-/

namespace Opensquid.Machine

open Opensquid.Lib

variable {sc : Statechart}

/-- The second state is reached from the first by turns that take clear transitions alone. -/
def ClearRun (sc : Statechart) : Configuration × LastActive → Configuration × LastActive → Prop :=
  Steps (Turn.run sc) fun s turn => turn.isClear sc s = true

theorem ClearRun.legal (valid : validateStatechart sc = some []) (tidy : sc.isTidy = true)
    {start s : Configuration × LastActive} (run : ClearRun sc start s)
    (legal : LegalState sc start) : LegalState sc s := by
  refine run.invariant legal fun before turn after legal clear fire => ?_
  obtain ⟨s', done, legal⟩ := turn_legal valid tidy legal clear
  rw [done] at fire
  cases fire
  exact legal

/-- Every configuration that clear transitions lead to is legal, the first one included, and no
turn that takes such transitions throws. -/
theorem reached_legal (valid : validateStatechart sc = some []) (tidy : sc.isTidy = true) :
    ∃ start, initialConfig sc = some start ∧
      ∀ s, ClearRun sc (start, fun _ => none) s →
        LegalConfiguration sc s.1 ∧
          ∀ turn : Turn, turn.isClear sc s = true →
            ∃ s', turn.run sc s = some s' ∧ LegalConfiguration sc s'.1 := by
  obtain ⟨start, initial, legal⟩ := initialConfig_legal tidy
  refine ⟨start, initial, fun s run => ?_⟩
  have here := run.legal valid tidy ⟨legal, nofun⟩
  refine ⟨(legalConfiguration_iff tidy).mpr here.1, fun turn clear => ?_⟩
  obtain ⟨s', done, after⟩ := turn_legal valid tidy here clear
  exact ⟨s', done, (legalConfiguration_iff tidy).mpr after.1⟩

/-- Through both regions of the review, its join, and both history nodes. -/
theorem reached_legal_studio : ∃ s,
    ClearRun studio (["work/draft"], fun _ => none) s ∧ s.1 = ["tune/high"] ∧
      LegalConfiguration studio s.1 := by
  have valid : validateStatechart studio = some [] := by decide +kernel
  have tidy : studio.isTidy = true := by decide +kernel
  have replay : (runWhile (Turn.run studio) (fun s turn => turn.isClear studio s)
      (["work/draft"], fun _ => none)
      [.step "submit" none, .step "code" none, .step "docs" none, .settle none,
        .step "pause" none, .step "pause" none, .step "pause" none]).any
      (fun s => s.1 = ["tune/high"]) = true := by decide +kernel
  obtain ⟨s, done, last⟩ := (Option.any_eq_true _ _).mp replay
  have run : ClearRun studio (["work/draft"], fun _ => none) s :=
    .of_runWhile (fun _ _ clear => clear) done
  obtain ⟨start, initial, legal⟩ := reached_legal valid tidy
  have same : initialConfig studio = some ["work/draft"] := by decide +kernel
  rw [same] at initial
  cases initial
  exact ⟨s, run, of_decide_eq_true last, (legal s run).1⟩

/-- From one region to another of the same parallel: the region that is left stays empty. -/
theorem region_left_empty : validateStatechart crossing = some [] ∧
    initialConfig crossing = some ["review/code", "review/docs"] ∧
    LegalConfiguration crossing ["review/code", "review/docs"] ∧
    ∃ r, step crossing ["review/code", "review/docs"] "hop" none (fun _ => none) = some r ∧
      r.next = ["review/docs"] ∧ ¬ LegalConfiguration crossing r.next := by
  have initial : initialConfig crossing = some ["review/code", "review/docs"] := by decide +kernel
  have start : LegalConfiguration crossing ["review/code", "review/docs"] := by
    have tidy : crossing.isTidy = true := by decide +kernel
    obtain ⟨config, done, legal⟩ := initialConfig_legal tidy
    rw [initial] at done
    cases done
    exact (legalConfiguration_iff tidy).mpr legal
  have fires : (step crossing ["review/code", "review/docs"] "hop" none fun _ => none).any
      (fun r => r.next = ["review/docs"]) = true := by decide +kernel
  obtain ⟨r, done, next⟩ := (Option.any_eq_true _ _).mp fires
  have left := of_decide_eq_true next
  refine ⟨by decide +kernel, initial, start, r, done, left, fun legal => ?_⟩
  rw [left] at legal
  have code := legal.parallel "review" [("code", .leaf), ("docs", .leaf)] rfl (by decide +kernel)
    ("code", .leaf) List.mem_cons_self
  revert code
  decide +kernel

end Opensquid.Machine
