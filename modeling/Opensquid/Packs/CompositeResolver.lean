import Mathlib.Data.List.Nodup
import Mathlib.Logic.Relation
import Opensquid.Lib.Lists

/-!
# Composite packs

`expandComposites` walks the includes of every composite pack, depth first. It fails on the first
include that does not resolve, on a chain of includes that comes back to a pack on it, and on a
chain with too many composites. Which walks it makes depends on the order of the packs; whether
it fails does not (`expandComposites_exact`). `Expanded` says how the packs come out.

The functions of `semver` are parameters.
-/

namespace Opensquid.Packs

open Relation Opensquid.Lib

structure Semver where
  satisfies : String → String → Bool
  valid : String → Option String
  validRange : String → Option String

inductive PackKind
  | focused
  | composite
  deriving DecidableEq, Repr

structure CompositeInclude where
  packId : String
  semver : String
  deriving DecidableEq, Repr

structure Pack where
  name : String
  version : String
  kind : Option PackKind
  includes : Option (List CompositeInclude)
  deriving DecidableEq, Repr

structure CompositeResolutionError where
  message : String
  compositePack : String
  cause : String
  deriving DecidableEq, Repr

def maxCompositeDepth : Nat := 3

/-- The depth is counted down instead, from the cap. -/
structure ResolutionState where
  visited : List String
  rootComposite : String

/-- The lists `out` and `seen`. -/
structure Expansion where
  out : List Pack
  seen : List String

def Pack.isComposite (p : Pack) : Bool := p.kind.getD .focused = .composite

def Expansion.push (s : Expansion) (p : Pack) : Expansion :=
  if p.name ∈ s.seen then s else ⟨s.out ++ [p], s.seen ++ [p.name]⟩

/-- The registry is a map, in which the last pack of a name stays. -/
def registryGet (packs : List Pack) (id : String) : Option Pack :=
  packs.reverse.find? (·.name = id)

def registrySize (packs : List Pack) : Nat := (packs.map (·.name)).eraseDups.length

section

variable (semver : Semver) (packs : List Pack)

def isValidRange (s : String) : Bool :=
  if (semver.valid s).isSome then true else (semver.validRange s).isSome

/-- The pack that an include stands for. -/
def resolveInclude (composite : Pack) (state : ResolutionState) (inc : CompositeInclude) :
    Except CompositeResolutionError Pack :=
  if !isValidRange semver inc.semver then
    .error
      ⟨"composite " ++ composite.name ++ ": include \"" ++ inc.packId ++
        "\" has invalid semver range \"" ++ inc.semver ++ "\"", composite.name, "invalid-semver"⟩
  else
    match registryGet packs inc.packId with
    | none =>
        .error
          ⟨"composite " ++ composite.name ++ ": include \"" ++ inc.packId ++ "@" ++ inc.semver ++
            "\" — no pack with that name in the registry (registry has " ++
            toString (registrySize packs) ++ " packs)", composite.name, "missing-include"⟩
    | some found =>
        if !semver.satisfies found.version inc.semver then
          .error
            ⟨"composite " ++ composite.name ++ ": include \"" ++ inc.packId ++ "@" ++ inc.semver ++
              "\" — registry has version " ++ found.version ++ " which does NOT satisfy range",
              composite.name, "semver-mismatch"⟩
        else if found.name ∈ state.visited then
          .error
            ⟨"composite " ++ state.rootComposite ++ ": include cycle detected (chain: " ++
              " → ".intercalate state.visited ++ " → " ++ found.name ++ ")",
              state.rootComposite, "cycle"⟩
        else .ok found

/-- One include of the walk; `walk` goes on from it. -/
def walkInclude
    (walk : Pack → ResolutionState → Expansion → Except CompositeResolutionError Expansion)
    (composite : Pack) (state : ResolutionState) (s : Expansion) (inc : CompositeInclude) :
    Except CompositeResolutionError Expansion := do
  let found ← resolveInclude semver packs composite state inc
  if found.isComposite then
    walk found ⟨state.visited ++ [found.name], state.rootComposite⟩ (s.push found)
  else .ok (s.push found)

def walkIncludes : Nat → Pack → ResolutionState → Expansion →
    Except CompositeResolutionError Expansion
  | 0, _, state, _ =>
      .error
        ⟨"composite " ++ state.rootComposite ++ ": include-expansion depth exceeded " ++
          toString maxCompositeDepth ++ " levels (chain: " ++ " → ".intercalate state.visited ++
          ")", state.rootComposite, "depth-exceeded"⟩
  | levels + 1, composite, state, s =>
      (composite.includes.getD []).foldlM
        (walkInclude semver packs (walkIncludes levels) composite state) s

/-- One pack of the list. -/
def expandPack (s : Expansion) (pack : Pack) : Except CompositeResolutionError Expansion :=
  if pack.isComposite then
    walkIncludes semver packs maxCompositeDepth pack ⟨[pack.name], pack.name⟩ (s.push pack)
  else .ok (s.push pack)

def expandComposites : Except CompositeResolutionError (List Pack) := do
  let s ← packs.foldlM (expandPack semver packs) ⟨[], []⟩
  return s.out

end

/-! ## What it is for -/

/-- A composite includes a pack of the list. -/
def Includes (packs : List Pack) (c p : Pack) : Prop :=
  c.isComposite = true ∧ p ∈ packs ∧ ∃ inc ∈ c.includes.getD [], inc.packId = p.name

def Reaches (packs : List Pack) : Pack → Pack → Prop := TransGen (Includes packs)

/-- A chain of includes from a composite to a composite; `names` are the packs after the first. -/
inductive Chain (packs : List Pack) : Pack → List String → Pack → Prop
  | here {c : Pack} (composite : c.isComposite = true) : Chain packs c [] c
  | next {c p d : Pack} {names : List String} (includes : Includes packs c p)
      (chain : Chain packs p names d) : Chain packs c (p.name :: names) d

/-- The include is sound at the end of a chain through packs of the given names. -/
def SoundAt (semver : Semver) (packs : List Pack) (names : List String) (inc : CompositeInclude) :
    Prop :=
  isValidRange semver inc.semver = true ∧
    (∃ p ∈ packs, p.name = inc.packId ∧ semver.satisfies p.version inc.semver = true) ∧
    inc.packId ∉ names

/-- Every include that a composite reaches is sound, and no chain nests composites deeper than
the cap. -/
def Expandable (semver : Semver) (packs : List Pack) : Prop :=
  ∀ c ∈ packs, ∀ names d, Chain packs c names d → names.length < maxCompositeDepth ∧
    ∀ inc ∈ d.includes.getD [], SoundAt semver packs (c.name :: names) inc

/-- No composite before the pack reaches it. -/
def InPlace (packs : List Pack) (p : Pack) : Prop :=
  p ∈ packs ∧ ∀ c, [c, p].Sublist packs → ¬ Reaches packs c p

/-- `q` is the first composite to reach `p`, and `p` stands after it. -/
def FirstReaches (packs : List Pack) (q p : Pack) : Prop :=
  Reaches packs q p ∧ [q, p].Sublist packs ∧ ∀ c, [c, q].Sublist packs → ¬ Reaches packs c p

/-- The pack comes after a composite that includes it, with only packs between that this composite
reaches. -/
def Hung (packs out : List Pack) (p : Pack) : Prop :=
  ∃ d before between after, Includes packs d p ∧ out = before ++ d :: (between ++ p :: after) ∧
    ∀ q ∈ between, Reaches packs d q

/-- Every pack once: those in place in their order, each followed by the packs that it pulls
forward. -/
structure Expanded (packs out : List Pack) : Prop where
  perm : out.Perm packs
  blocks : ∃ blocks : List (Pack × List Pack), out = blocks.flatMap (fun b => b.1 :: b.2) ∧
    (blocks.map Prod.fst).Sublist packs ∧ (∀ p, p ∈ blocks.map Prod.fst ↔ InPlace packs p) ∧
    ∀ b ∈ blocks, ∀ p, p ∈ b.2 ↔ FirstReaches packs b.1 p
  hung : ∀ p ∈ out, InPlace packs p ∨ Hung packs out p

/-! ## Which lists expand -/

section

variable {semver : Semver} {packs : List Pack}

theorem Chain.composite {c d : Pack} {names : List String} (chain : Chain packs c names d) :
    c.isComposite = true := by
  cases chain with
  | here composite => exact composite
  | next includes _ => exact includes.1

theorem registryGet_eq_some (distinct : (packs.map (·.name)).Nodup) {id : String} {p : Pack} :
    registryGet packs id = some p ↔ p ∈ packs ∧ p.name = id := by
  have inj := List.inj_on_of_nodup_map distinct
  constructor
  · intro found
    exact ⟨List.mem_reverse.mp (List.mem_of_find?_eq_some found),
      of_decide_eq_true (List.find?_some (p := fun q : Pack => decide (q.name = id)) found)⟩
  · rintro ⟨mem, named⟩
    cases found : registryGet packs id with
    | none =>
        exact absurd named (by
          simpa using List.find?_eq_none.mp found p (List.mem_reverse.mpr mem))
    | some q =>
        have mem' := List.mem_reverse.mp (List.mem_of_find?_eq_some found)
        have named' : q.name = id :=
          of_decide_eq_true (List.find?_some (p := fun q : Pack => decide (q.name = id)) found)
        rw [inj mem' mem (named'.trans named.symm)]

theorem resolveInclude_eq_ok (distinct : (packs.map (·.name)).Nodup) {composite p : Pack}
    {state : ResolutionState} {inc : CompositeInclude} :
    resolveInclude semver packs composite state inc = .ok p ↔
      isValidRange semver inc.semver = true ∧ p ∈ packs ∧ p.name = inc.packId ∧
      semver.satisfies p.version inc.semver = true ∧ p.name ∉ state.visited := by
  rw [← and_assoc (a := p ∈ packs), ← registryGet_eq_some distinct, resolveInclude]
  cases range : isValidRange semver inc.semver with
  | false => simp
  | true =>
      cases found : registryGet packs inc.packId with
      | none => simp
      | some q =>
          cases fits : semver.satisfies q.version inc.semver with
          | false =>
              simp only [Bool.not_true, Bool.false_eq_true, if_false, fits, Bool.not_false, if_true,
                reduceCtorEq, Option.some.injEq, true_and, false_iff]
              rintro ⟨rfl, fits', -⟩
              rw [fits] at fits'
              cases fits'
          | true =>
              by_cases back : q.name ∈ state.visited
              · simp only [Bool.not_true, Bool.false_eq_true, if_false, fits, back, if_true,
                  reduceCtorEq, Option.some.injEq, true_and, false_iff]
                rintro ⟨rfl, -, new⟩
                exact new back
              · simp only [Bool.not_true, Bool.false_eq_true, if_false, fits, back,
                  Except.ok.injEq, Option.some.injEq, true_and]
                constructor
                · rintro rfl
                  exact ⟨rfl, fits, back⟩
                · exact fun here => here.1

/-- The include resolves, and so does what it leads to. -/
theorem walkInclude_ok (distinct : (packs.map (·.name)).Nodup) {composite : Pack} {levels : Nat}
    {state : ResolutionState} {inc : CompositeInclude} {good : Pack → Prop}
    (walk : ∀ (p : Pack) (s : Expansion), p.isComposite = true →
      ((∃ t, walkIncludes semver packs levels p
        ⟨state.visited ++ [p.name], state.rootComposite⟩ s = .ok t) ↔ good p)) (s : Expansion) :
    (∃ t, walkInclude semver packs (walkIncludes semver packs levels) composite state s inc = .ok t) ↔
      SoundAt semver packs state.visited inc ∧
        ∀ p ∈ packs, p.name = inc.packId → p.isComposite = true → good p := by
  rw [walkInclude]
  have inj := List.inj_on_of_nodup_map distinct
  cases resolved : resolveInclude semver packs composite state inc with
  | error e =>
      refine ⟨fun ⟨_, done⟩ => (nomatch done), fun ⟨⟨range, ⟨p, mem, named, fits⟩, new⟩, _⟩ => ?_⟩
      rw [(resolveInclude_eq_ok distinct).mpr ⟨range, mem, named, fits, named ▸ new⟩] at resolved
      cases resolved
  | ok p =>
      obtain ⟨range, mem, named, fits, new⟩ := (resolveInclude_eq_ok distinct).mp resolved
      have sound : SoundAt semver packs state.visited inc :=
        ⟨range, ⟨p, mem, named, fits⟩, named ▸ new⟩
      have only : ∀ q ∈ packs, q.name = inc.packId → q = p := fun q mem' named' =>
        inj mem' mem (named'.trans named.symm)
      change (∃ t, (if p.isComposite then _ else _ : Except CompositeResolutionError Expansion) =
        .ok t) ↔ _
      by_cases composite : p.isComposite = true
      · rw [if_pos composite, walk p _ composite]
        refine ⟨fun well => ⟨sound, fun q mem' named' _ => only q mem' named' ▸ well⟩, ?_⟩
        exact fun both => both.2 p mem named composite
      · rw [if_neg composite]
        refine ⟨fun _ => ⟨sound, fun q mem' named' composite' => ?_⟩, fun _ => ⟨_, rfl⟩⟩
        exact absurd (only q mem' named' ▸ composite') composite

/-- When the walk from a composite succeeds, whatever was expanded before. -/
theorem walkIncludes_ok (distinct : (packs.map (·.name)).Nodup) {levels : Nat} {c : Pack}
    {state : ResolutionState} (composite : c.isComposite = true) (s : Expansion) :
    (∃ t, walkIncludes semver packs levels c state s = .ok t) ↔
      ∀ names d, Chain packs c names d → names.length < levels ∧
        ∀ inc ∈ d.includes.getD [], SoundAt semver packs (state.visited ++ names) inc := by
  induction levels generalizing c state s with
  | zero =>
      refine ⟨fun ⟨_, done⟩ => (by cases done), fun all => ?_⟩
      exact absurd (all [] c (.here composite)).1 (Nat.lt_irrefl _)
  | succ levels ih =>
      have one := fun s inc => @walkInclude_ok semver packs distinct c levels state inc _
        (fun p s composite => ih composite s) s
      rw [walkIncludes, exists_foldlM_ok one]
      constructor
      · intro all names d chain
        cases chain with
        | here _ =>
            rw [List.append_nil]
            exact ⟨Nat.succ_pos _, fun inc mem => (all inc mem).1⟩
        | @next _ p _ names includes chain =>
            obtain ⟨_, mem, inc, listed, named⟩ := includes
            obtain ⟨short, sound⟩ := (all inc listed).2 p mem named.symm chain.composite names d chain
            refine ⟨Nat.succ_lt_succ short, fun inc mem => ?_⟩
            have here := sound inc mem
            rwa [List.append_assoc, List.singleton_append] at here
      · intro all inc listed
        have here := (all [] c (.here composite)).2 inc listed
        rw [List.append_nil] at here
        refine ⟨here, fun p mem named composite' names d chain => ?_⟩
        obtain ⟨short, sound⟩ := all (p.name :: names) d
          (.next ⟨composite, mem, inc, listed, named.symm⟩ chain)
        refine ⟨Nat.lt_of_succ_lt_succ short, fun inc mem => ?_⟩
        have here := sound inc mem
        rwa [List.append_assoc, List.singleton_append]

/-- When the expansion succeeds. -/
theorem expandComposites_ok (distinct : (packs.map (·.name)).Nodup) :
    (∃ out, expandComposites semver packs = .ok out) ↔ Expandable semver packs := by
  have whole : (∃ out, expandComposites semver packs = .ok out) ↔
      ∃ s, packs.foldlM (expandPack semver packs) ⟨[], []⟩ = .ok s := by
    rw [expandComposites]
    cases packs.foldlM (expandPack semver packs) ⟨[], []⟩ with
    | error e => exact ⟨fun ⟨_, done⟩ => (nomatch done), fun ⟨_, done⟩ => (nomatch done)⟩
    | ok s => exact ⟨fun _ => ⟨s, rfl⟩, fun _ => ⟨s.out, rfl⟩⟩
  have one : ∀ s c, (∃ t, expandPack semver packs s c = .ok t) ↔
      ∀ names d, Chain packs c names d → names.length < maxCompositeDepth ∧
        ∀ inc ∈ d.includes.getD [], SoundAt semver packs (c.name :: names) inc := by
    intro s c
    rw [expandPack]
    by_cases composite : c.isComposite = true
    · rw [if_pos composite]
      exact walkIncludes_ok distinct composite _
    · rw [if_neg composite]
      exact ⟨fun _ names d chain => absurd chain.composite composite, fun _ => ⟨_, rfl⟩⟩
  rw [whole, exists_foldlM_ok one]
  rfl

/-! ## How they come out -/

/-- What holds between the steps; the composites named in `visited` are being walked. -/
structure Expanding (packs : List Pack) (visited : List String) (s : Expansion) : Prop where
  seen : s.seen = s.out.map (·.name)
  known : ∀ p ∈ s.out, p ∈ packs
  once : s.out.Nodup
  walked : ∀ d ∈ s.out, d.name ∉ visited → ∀ q, Reaches packs d q → q ∈ s.out

theorem not_reaches_of_focused {p q : Pack} (focused : ¬ p.isComposite = true) :
    ¬ Reaches packs p q := fun reaches => by
  obtain ⟨_, includes, _⟩ := TransGen.head'_iff.mp reaches
  exact focused includes.1

theorem Hung.append {out : List Pack} {p : Pack} (hung : Hung packs out p) (more : List Pack) :
    Hung packs (out ++ more) p := by
  obtain ⟨d, before, between, after, includes, rfl, reached⟩ := hung
  refine ⟨d, before, between, after ++ more, includes, ?_, reached⟩
  simp only [List.append_assoc, List.cons_append]

namespace Expanding

variable {visited : List String} {s t : Expansion} {c p : Pack} {root : String}

theorem push_of_mem (seen : s.seen = s.out.map (·.name)) (mem : p ∈ s.out) : s.push p = s := by
  rw [Expansion.push, if_pos]
  rw [seen]
  exact List.mem_map_of_mem mem

theorem push_out (distinct : (packs.map (·.name)).Nodup) (expanding : Expanding packs visited s)
    (listed : p ∈ packs) (new : p ∉ s.out) :
    (s.push p).out = s.out ++ [p] ∧ Expanding packs (visited ++ [p.name]) (s.push p) := by
  have unseen : p.name ∉ s.seen := fun mem => by
    rw [expanding.seen] at mem
    obtain ⟨q, mem, same⟩ := List.mem_map.mp mem
    exact new (List.inj_on_of_nodup_map distinct (expanding.known q mem) listed same ▸ mem)
  rw [Expansion.push, if_neg unseen]
  refine ⟨rfl, ?_, ?_, ?_, ?_⟩
  · rw [expanding.seen, List.map_append, List.map_singleton]
  · intro q mem
    rcases List.mem_append.mp mem with old | here
    · exact expanding.known q old
    · exact List.mem_singleton.mp here ▸ listed
  · exact List.nodup_append.mpr ⟨expanding.once, List.nodup_singleton p, fun x mem y here same =>
      new (List.mem_singleton.mp here ▸ same ▸ mem)⟩
  · intro d mem free q reaches
    rw [List.mem_append, not_or] at free
    rcases List.mem_append.mp mem with old | here
    · exact List.mem_append_left _ (expanding.walked d old free.1 q reaches)
    · exact absurd (List.mem_singleton.mpr (List.mem_singleton.mp here ▸ rfl)) free.2

/-- When a composite has been walked, it is like the others. -/
theorem leave (distinct : (packs.map (·.name)).Nodup) (listed : p ∈ packs)
    (expanding : Expanding packs (visited ++ [p.name]) s)
    (all : ∀ q, Reaches packs p q → q ∈ s.out) : Expanding packs visited s := by
  refine ⟨expanding.seen, expanding.known, expanding.once, fun d mem free q reaches => ?_⟩
  by_cases same : d.name = p.name
  · rw [List.inj_on_of_nodup_map distinct (expanding.known d mem) listed same] at reaches
    exact all q reaches
  · refine expanding.walked d mem (fun here => ?_) q reaches
    exact (List.mem_append.mp here).elim free fun here => same (List.mem_singleton.mp here)

end Expanding

theorem walkInclude_eq_ok {levels : Nat} {c : Pack} {state : ResolutionState} {s t : Expansion}
    {inc : CompositeInclude} (distinct : (packs.map (·.name)).Nodup)
    (done : walkInclude semver packs (walkIncludes semver packs levels) c state s inc = .ok t) :
    ∃ p ∈ packs, p.name = inc.packId ∧ p.name ∉ state.visited ∧
      if p.isComposite then
        walkIncludes semver packs levels p
          ⟨state.visited ++ [p.name], state.rootComposite⟩ (s.push p) = .ok t
      else t = s.push p := by
  rw [walkInclude] at done
  cases resolved : resolveInclude semver packs c state inc with
  | error e =>
      rw [resolved] at done
      cases done
  | ok p =>
      obtain ⟨-, mem, named, -, new⟩ := (resolveInclude_eq_ok distinct).mp resolved
      rw [resolved] at done
      refine ⟨p, mem, named, new, ?_⟩
      change (if p.isComposite then _ else _) = _ at done
      split
      · rename_i composite
        rwa [if_pos composite] at done
      · rename_i focused
        rw [if_neg focused] at done
        exact (Except.ok.inj done).symm

/-- A walk over what is there already adds nothing. -/
theorem walkIncludes_settled (distinct : (packs.map (·.name)).Nodup) {levels : Nat} {c : Pack}
    {state : ResolutionState} {s t : Expansion} (seen : s.seen = s.out.map (·.name))
    (composite : c.isComposite = true) (all : ∀ q, Reaches packs c q → q ∈ s.out)
    (done : walkIncludes semver packs levels c state s = .ok t) : t = s := by
  induction levels generalizing c state t with
  | zero => cases done
  | succ levels ih =>
      rw [walkIncludes] at done
      refine (foldlM_ok_invariant (fun rest u => u = s ∧ rest ⊆ c.includes.getD []) ?_
        ⟨rfl, List.Subset.refl _⟩ done).1
      rintro inc rest _ u ⟨rfl, listed⟩ step
      refine ⟨?_, fun x mem => listed (List.mem_cons_of_mem _ mem)⟩
      obtain ⟨p, mem, named, -, next⟩ := walkInclude_eq_ok distinct step
      have includes : Includes packs c p := ⟨composite, mem, inc, listed List.mem_cons_self, named.symm⟩
      rw [Expanding.push_of_mem seen (all p (.single includes))] at next
      split at next
      · exact ih ‹_› (fun q reaches => all q (.head includes reaches)) next
      · exact next

/-- What the walk from the last pack in `out` has added to it. -/
structure Added (packs init : List Pack) (c : Pack) (added : List Pack) (s : Expansion) : Prop where
  out : s.out = init ++ c :: added
  reached : ∀ q ∈ added, Reaches packs c q
  hung : ∀ q ∈ added, Hung packs s.out q

/-- The packs of an include are there. -/
def Taken (packs : List Pack) (s : Expansion) (inc : CompositeInclude) : Prop :=
  ∀ p ∈ packs, p.name = inc.packId → p ∈ s.out ∧ ∀ q, Reaches packs p q → q ∈ s.out

theorem all_reached {c : Pack} {s : Expansion} (taken : ∀ inc ∈ c.includes.getD [], Taken packs s inc)
    {q : Pack} (reaches : Reaches packs c q) : q ∈ s.out := by
  obtain ⟨p, ⟨_, mem, inc, listed, named⟩, rest⟩ := TransGen.head'_iff.mp reaches
  obtain ⟨here, later⟩ := taken inc listed p mem named.symm
  rcases reflTransGen_iff_eq_or_transGen.mp rest with rfl | further
  · exact here
  · exact later q further

/-- What holds in the loop over the includes of `c`, of which `rest` are left. -/
structure Walking (packs : List Pack) (visited : List String) (init : List Pack) (c : Pack)
    (rest : List CompositeInclude) (s : Expansion) : Prop where
  listed : rest ⊆ c.includes.getD []
  taken : ∀ inc ∈ c.includes.getD [], inc ∈ rest ∨ Taken packs s inc
  added : ∃ added, Added packs init c added s
  expanding : Expanding packs visited s

/-- What the walk from the last pack in `out` does. -/
def Walked (packs : List Pack) (visited : List String) (init : List Pack) (c : Pack)
    (s : Expansion) : Prop :=
  (∃ added, Added packs init c added s) ∧ Expanding packs visited s ∧
    ∀ q, Reaches packs c q → q ∈ s.out

/-- A new pack, and the walk from it. -/
theorem Walked.of_new (distinct : (packs.map (·.name)).Nodup) {visited : List String} {p : Pack}
    {s t : Expansion} {result : Except CompositeResolutionError Expansion}
    (expanding : Expanding packs visited s) (listed : p ∈ packs) (new : p ∉ s.out)
    (walk : p.isComposite = true → (s.push p).out = s.out ++ [p] →
      Expanding packs (visited ++ [p.name]) (s.push p) → result = .ok t →
      Walked packs (visited ++ [p.name]) s.out p t)
    (next : if p.isComposite then result = .ok t else t = s.push p) :
    Walked packs visited s.out p t := by
  obtain ⟨pushed, expanding'⟩ := Expanding.push_out distinct expanding listed new
  split at next
  · rename_i composite
    obtain ⟨added, expanding'', all⟩ := walk composite pushed expanding' next
    exact ⟨added, expanding''.leave distinct listed all, all⟩
  · rename_i focused
    subst next
    have none : ∀ q, Reaches packs p q → q ∈ (s.push p).out := fun q reaches =>
      absurd reaches (not_reaches_of_focused focused)
    exact ⟨⟨[], pushed, nofun, nofun⟩, expanding'.leave distinct listed none, none⟩

theorem Walking.step (distinct : (packs.map (·.name)).Nodup) {levels : Nat} {c : Pack}
    {state : ResolutionState} {init : List Pack} {inc : CompositeInclude}
    {rest : List CompositeInclude} {u v : Expansion}
    (walk : ∀ (p : Pack) (init : List Pack) (s t : Expansion), p.isComposite = true →
      s.out = init ++ [p] → Expanding packs (state.visited ++ [p.name]) s →
      walkIncludes semver packs levels p
        ⟨state.visited ++ [p.name], state.rootComposite⟩ s = .ok t →
      Walked packs (state.visited ++ [p.name]) init p t)
    (composite : c.isComposite = true) (walking : Walking packs state.visited init c (inc :: rest) u)
    (step : walkInclude semver packs (walkIncludes semver packs levels) c state u inc = .ok v) :
    Walking packs state.visited init c rest v := by
  obtain ⟨listed, taken, ⟨added, here⟩, expanding⟩ := walking
  obtain ⟨p, mem, named, new, next⟩ := walkInclude_eq_ok distinct step
  have includes : Includes packs c p :=
    ⟨composite, mem, inc, listed List.mem_cons_self, named.symm⟩
  have rest_listed : rest ⊆ c.includes.getD [] := fun x mem => listed (List.mem_cons_of_mem _ mem)
  -- what was taken stays, and the packs of this include are `p` and what it reaches
  have finish : ∀ w : Expansion, u.out ⊆ w.out → p ∈ w.out →
      (∀ q, Reaches packs p q → q ∈ w.out) →
      ∀ i ∈ c.includes.getD [], i ∈ rest ∨ Taken packs w i := by
    intro w grown there reached i mem_i
    have this_one : Taken packs w inc := fun q mem' named' => by
      rw [List.inj_on_of_nodup_map distinct mem' mem (named'.trans named.symm)]
      exact ⟨there, reached⟩
    rcases taken i mem_i with left | old
    · exact (List.mem_cons.mp left).elim (fun same => .inr (same ▸ this_one)) .inl
    · exact .inr fun q mem' named' => ⟨grown (old q mem' named').1,
        fun r reaches => grown ((old q mem' named').2 r reaches)⟩
  by_cases old : p ∈ u.out
  · have settled : v = u := by
      rw [Expanding.push_of_mem expanding.seen old] at next
      split at next
      · exact walkIncludes_settled distinct expanding.seen ‹_›
          (expanding.walked p old new) next
      · exact next
    subst settled
    exact ⟨rest_listed, finish v (List.Subset.refl _) old (expanding.walked p old new),
      ⟨added, here⟩, expanding⟩
  · obtain ⟨⟨tail, eq, reached, hung⟩, expanding', all⟩ := Walked.of_new distinct expanding mem old
      (fun composite pushed expanding done => walk p _ _ _ composite pushed expanding done) next
    have grown : u.out ⊆ v.out := fun q mem => eq ▸ List.mem_append_left _ mem
    have there : p ∈ v.out := eq ▸ List.mem_append_right _ List.mem_cons_self
    have here' : v.out = init ++ c :: (added ++ p :: tail) := by
      rw [eq, here.out, List.append_assoc, List.cons_append]
    refine ⟨rest_listed, finish v grown there all, ⟨added ++ p :: tail, here', ?_, ?_⟩, expanding'⟩
    · intro q mem
      rcases List.mem_append.mp mem with before | after
      · exact here.reached q before
      · rcases List.mem_cons.mp after with rfl | further
        · exact .single includes
        · exact .head includes (reached q further)
    · intro q mem
      rcases List.mem_append.mp mem with before | after
      · rw [eq]
        exact (here.hung q before).append _
      · rcases List.mem_cons.mp after with rfl | further
        · exact ⟨c, init, added, tail, includes, here', here.reached⟩
        · exact hung q further

/-- The walk from a pack that is the last in `out`. -/
theorem walkIncludes_fresh (distinct : (packs.map (·.name)).Nodup) {levels : Nat} {c : Pack}
    {state : ResolutionState} {init : List Pack} {s t : Expansion} (composite : c.isComposite = true)
    (out : s.out = init ++ [c]) (expanding : Expanding packs state.visited s)
    (done : walkIncludes semver packs levels c state s = .ok t) :
    Walked packs state.visited init c t := by
  induction levels generalizing c state init s t with
  | zero => cases done
  | succ levels ih =>
      rw [walkIncludes] at done
      have start : Walking packs state.visited init c (c.includes.getD []) s :=
        ⟨List.Subset.refl _, fun inc mem => .inl mem, ⟨[], out, nofun, nofun⟩, expanding⟩
      have kept := foldlM_ok_invariant (Walking packs state.visited init c)
        (fun inc rest u v walking step => walking.step distinct
          (fun p init s t composite out expanding done => ih composite out expanding done)
          composite step) start done
      refine ⟨kept.added, kept.expanding, fun q => all_reached fun inc mem => ?_⟩
      exact (kept.taken inc mem).resolve_left List.not_mem_nil

/-- What holds between the packs of the list, of which `before` are done. -/
structure Blocks (packs before : List Pack) (blocks : List (Pack × List Pack)) (s : Expansion) :
    Prop where
  out : s.out = blocks.flatMap fun b => b.1 :: b.2
  expanding : Expanding packs [] s
  mem : ∀ p, p ∈ s.out ↔ p ∈ before ∨ ∃ c ∈ before, Reaches packs c p
  heads : (blocks.map Prod.fst).Sublist before
  inPlace : ∀ p, p ∈ blocks.map Prod.fst ↔ p ∈ before ∧ InPlace packs p
  pulled : ∀ b ∈ blocks, ∀ p, p ∈ b.2 ↔ FirstReaches packs b.1 p
  hung : ∀ p ∈ s.out, InPlace packs p ∨ Hung packs s.out p

theorem Blocks.step (distinct : (packs.map (·.name)).Nodup) {before rest : List Pack} {q : Pack}
    {blocks : List (Pack × List Pack)} {s t : Expansion} (split : packs = before ++ q :: rest)
    (here : Blocks packs before blocks s) (done : expandPack semver packs s q = .ok t) :
    ∃ blocks', Blocks packs (before ++ [q]) blocks' t := by
  have once : (before ++ q :: rest).Nodup := split ▸ List.Nodup.of_map _ distinct
  have listed : q ∈ packs := split ▸ List.mem_append_right _ List.mem_cons_self
  have fresh : q ∉ before := fun mem => (List.nodup_append.mp once).2.2 q mem q List.mem_cons_self rfl
  have earlier : ∀ c, [c, q].Sublist packs ↔ c ∈ before := fun c => by
    rw [split]
    exact pair_sublist_iff_mem_left once
  by_cases old : q ∈ s.out
  · -- an earlier composite has pulled it forward, with all that it reaches
    have all := here.expanding.walked q old List.not_mem_nil
    have settled : t = s := by
      rw [expandPack, Expanding.push_of_mem here.expanding.seen old] at done
      split at done
      · exact walkIncludes_settled distinct here.expanding.seen ‹_› all done
      · exact (Except.ok.inj done).symm
    subst settled
    obtain ⟨c, mem, reaches⟩ := ((here.mem q).mp old).resolve_left fresh
    refine ⟨blocks, here.out, here.expanding, fun p => ?_, ?_, fun p => ?_, here.pulled, here.hung⟩
    · rw [here.mem]
      constructor
      · rintro (listed | ⟨c, mem, reaches⟩)
        · exact .inl (List.mem_append_left _ listed)
        · exact .inr ⟨c, List.mem_append_left _ mem, reaches⟩
      · rintro (listed | ⟨c, mem, reaches⟩)
        · rcases List.mem_append.mp listed with listed | last
          · exact .inl listed
          · exact List.mem_singleton.mp last ▸ (here.mem q).mp old
        · rcases List.mem_append.mp mem with mem | last
          · exact .inr ⟨c, mem, reaches⟩
          · exact (here.mem p).mp (all p (List.mem_singleton.mp last ▸ reaches))
    · exact here.heads.trans (List.sublist_append_left _ _)
    · rw [here.inPlace, List.mem_append, List.mem_singleton]
      constructor
      · exact fun both => ⟨.inl both.1, both.2⟩
      · rintro ⟨listed | rfl, inPlace⟩
        · exact ⟨listed, inPlace⟩
        · exact absurd reaches (inPlace.2 c ((earlier c).mpr mem))
  · have next : if q.isComposite then walkIncludes semver packs maxCompositeDepth q
        ⟨[] ++ [q.name], q.name⟩ (s.push q) = .ok t else t = s.push q := by
      rw [expandPack] at done
      split at done
      · rw [if_pos ‹_›]
        exact done
      · rw [if_neg ‹_›]
        exact (Except.ok.inj done).symm
    obtain ⟨⟨added, out, reached, hung⟩, expanding, all⟩ := Walked.of_new distinct here.expanding
      listed old (fun composite pushed expanding done =>
        walkIncludes_fresh distinct composite pushed expanding done) next
    have inPlace : InPlace packs q := ⟨listed, fun c pair reaches =>
      old ((here.mem q).mpr (.inr ⟨c, (earlier c).mp pair, reaches⟩))⟩
    have nodup := expanding.once
    rw [out] at nodup
    have members : ∀ p, p ∈ t.out ↔ p ∈ s.out ∨ p = q ∨ p ∈ added := fun p => by
      rw [out, List.mem_append, List.mem_cons]
    refine ⟨blocks ++ [(q, added)], ?_, expanding, fun p => ?_, ?_, fun p => ?_, fun b mem p => ?_,
      fun p mem => ?_⟩
    · rw [out, here.out, List.flatMap_append, List.flatMap_singleton]
    · constructor
      · intro mem
        rcases (members p).mp mem with before | rfl | later
        · rcases (here.mem p).mp before with listed | ⟨c, mem, reaches⟩
          · exact .inl (List.mem_append_left _ listed)
          · exact .inr ⟨c, List.mem_append_left _ mem, reaches⟩
        · exact .inl (List.mem_append_right _ List.mem_cons_self)
        · exact .inr ⟨q, List.mem_append_right _ List.mem_cons_self, reached p later⟩
      · rintro (listed | ⟨c, mem, reaches⟩)
        · rcases List.mem_append.mp listed with listed | last
          · exact (members p).mpr (.inl ((here.mem p).mpr (.inl listed)))
          · exact (members p).mpr (.inr (.inl (List.mem_singleton.mp last)))
        · rcases List.mem_append.mp mem with mem | last
          · exact (members p).mpr (.inl ((here.mem p).mpr (.inr ⟨c, mem, reaches⟩)))
          · exact all p (List.mem_singleton.mp last ▸ reaches)
    · rw [List.map_append, List.map_singleton]
      exact here.heads.append (List.Sublist.refl _)
    · rw [List.map_append, List.mem_append, here.inPlace, List.map_singleton, List.mem_append,
        List.mem_singleton]
      constructor
      · rintro (both | rfl)
        · exact ⟨.inl both.1, both.2⟩
        · exact ⟨.inr rfl, inPlace⟩
      · rintro ⟨listed | rfl, both⟩
        · exact .inl ⟨listed, both⟩
        · exact .inr rfl
    · rcases List.mem_append.mp mem with before | last
      · exact here.pulled b before p
      · cases List.mem_singleton.mp last
        have after : [q, p].Sublist packs ↔ p ∈ rest := by
          rw [split]
          exact pair_sublist_iff_mem_right once
        rw [FirstReaches, after]
        constructor
        · intro mem
          have new : p ∉ s.out := fun old => (List.nodup_append.mp nodup).2.2 p old p
            (List.mem_cons_of_mem _ mem) rfl
          have other : p ≠ q := fun same =>
            (List.nodup_cons.mp (List.nodup_append.mp nodup).2.1).1 (same ▸ mem)
          have known : p ∈ before ++ q :: rest :=
            split ▸ expanding.known p ((members p).mpr (.inr (.inr mem)))
          refine ⟨reached p mem, ?_, fun c pair reaches =>
            new ((here.mem p).mpr (.inr ⟨c, (earlier c).mp pair, reaches⟩))⟩
          rcases List.mem_append.mp known with listed | later
          · exact absurd ((here.mem p).mpr (.inl listed)) new
          · exact (List.mem_cons.mp later).resolve_left other
        · rintro ⟨reaches, later, first⟩
          rcases (members p).mp (all p reaches) with old | rfl | mem
          · rcases (here.mem p).mp old with listed | ⟨c, mem, reaches⟩
            · exact absurd rfl ((List.nodup_append.mp once).2.2 p listed p
                (List.mem_cons_of_mem _ later))
            · exact absurd reaches (first c ((earlier c).mpr mem))
          · exact absurd later (List.nodup_cons.mp (List.nodup_append.mp once).2.1).1
          · exact mem
    · rcases (members p).mp mem with before | rfl | later
      · rw [out]
        exact (here.hung p before).imp_right fun hung => hung.append _
      · exact .inl inPlace
      · exact .inr (hung p later)

/-- For every list of packs with distinct names: when the expansion succeeds, and what it gives. -/
theorem expandComposites_exact (distinct : (packs.map (·.name)).Nodup) :
    ((∃ out, expandComposites semver packs = .ok out) ↔ Expandable semver packs) ∧
    ∀ out, expandComposites semver packs = .ok out → Expanded packs out := by
  refine ⟨expandComposites_ok distinct, fun out done => ?_⟩
  obtain ⟨s, loop, rfl⟩ : ∃ s, packs.foldlM (expandPack semver packs) ⟨[], []⟩ = .ok s ∧
      s.out = out := by
    rw [expandComposites] at done
    cases loop : packs.foldlM (expandPack semver packs) ⟨[], []⟩ with
    | error e =>
        rw [loop] at done
        cases done
    | ok s =>
        rw [loop] at done
        exact ⟨s, rfl, Except.ok.inj done⟩
  have start : ∃ before, packs = before ++ packs ∧ ∃ blocks, Blocks packs before blocks ⟨[], []⟩ :=
    ⟨[], rfl, [], rfl, ⟨rfl, nofun, List.nodup_nil, nofun⟩,
      fun p => ⟨nofun, fun none => by rcases none with none | ⟨c, none, _⟩ <;> cases none⟩,
      List.Sublist.refl _, fun p => ⟨nofun, fun none => nomatch none.1⟩, nofun, nofun⟩
  obtain ⟨before, split, blocks, here⟩ := foldlM_ok_invariant
    (fun rest s => ∃ before, packs = before ++ rest ∧ ∃ blocks, Blocks packs before blocks s)
    (fun q rest s t ⟨before, split, blocks, here⟩ step =>
      ⟨before ++ [q], by rw [split, List.append_assoc, List.singleton_append],
        here.step distinct split step⟩) start loop
  rw [List.append_nil] at split
  subst split
  refine ⟨?_, ⟨blocks, here.out, here.heads, fun p => ?_, here.pulled⟩, here.hung⟩
  · refine (List.perm_ext_iff_of_nodup here.expanding.once (List.Nodup.of_map _ distinct)).mpr ?_
    exact fun p => ⟨here.expanding.known p, fun mem => (here.mem p).mpr (.inl mem)⟩
  · rw [here.inPlace]
    exact ⟨fun both => both.2, fun inPlace => ⟨inPlace.1, inPlace⟩⟩

def caretSemver : Semver where
  satisfies version range := range = "^1.0.0" && (version = "1.0.0" || version = "1.5.0")
  valid _ := none
  validRange range := if range = "^1.0.0" then some ">=1.0.0 <2.0.0-0" else none

/-- `b` is pulled forward over `c`. -/
theorem expandComposites_exact_pulled :
    let packs : List Pack := [⟨"a", "1.0.0", some .focused, none⟩,
      ⟨"meta", "1.0.0", some .composite, some [⟨"b", "^1.0.0"⟩, ⟨"a", "^1.0.0"⟩]⟩,
      ⟨"c", "1.0.0", none, none⟩, ⟨"b", "1.5.0", none, some []⟩]
    ∃ out, expandComposites caretSemver packs = .ok out ∧ out.map (·.name) = ["a", "meta", "b", "c"] ∧
      Expanded packs out := by
  intro packs
  refine ⟨_, rfl, rfl, (@expandComposites_exact caretSemver packs (by decide)).2 _ rfl⟩

end

end Opensquid.Packs
