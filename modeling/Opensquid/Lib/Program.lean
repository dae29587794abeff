import Mathlib.Data.List.Basic

/-!
# Programs of atomic calls

A `Program` is an asynchronous function as its environment sees it: it returns,
throws, or makes one atomic call and goes on with the reply; a call that fails has
no reply, and what follows decides whether to catch the failure. `exec` gives the
calls their meaning on a state: for each input the environment may choose (a fresh
identifier, a clock reading), the next state and the reply.

`Program.Always exec cut post p s`: whatever the environment chooses, `cut` holds of
every call that `p` makes when it is run from `s` (so wherever it may be cut off), in
the state before the call, and `post` holds of its outcome if it ends. The rules below
follow the structure of a program.

A `Protocol` says in which order a program may make its calls, whatever they reply. A
program that follows it does so among any other programs.
-/

namespace Opensquid.Lib

inductive Program (Op : Type) (Reply : Op → Type) (α : Type)
  | ret (a : α)
  | throw
  | call (op : Op) (k : Option (Reply op) → Program Op Reply α)

namespace Program

variable {Op : Type} {Reply : Op → Type} {α β : Type}

/-- One awaited call; it throws when the call fails. -/
def await (op : Op) : Program Op Reply (Reply op) :=
  call op fun
    | some reply => ret reply
    | none => throw

def bind : Program Op Reply α → (α → Program Op Reply β) → Program Op Reply β
  | ret a, f => f a
  | throw, _ => throw
  | call op k, f => call op fun reply => (k reply).bind f

/-- `try p catch handler`. -/
def orElse : Program Op Reply α → Program Op Reply α → Program Op Reply α
  | ret a, _ => ret a
  | throw, handler => handler
  | call op k, handler => call op fun reply => (k reply).orElse handler

/-- The value of `p`, or none when it throws. -/
def attempt (p : Program Op Reply α) : Program Op Reply (Option α) :=
  (p.bind fun a => ret (some a)).orElse (ret none)

/-- It throws unless the condition holds. -/
def ensure (c : Prop) [Decidable c] : Program Op Reply Unit := if c then ret () else throw

instance : Monad (Program Op Reply) where
  pure := ret
  bind := bind

@[simp] theorem pure_eq (a : α) : (pure a : Program Op Reply α) = ret a := rfl

@[simp] theorem bind_eq (p : Program Op Reply α) (f : α → Program Op Reply β) :
    p >>= f = p.bind f := rfl

/-- `for (const x of xs) await f(x)`. -/
def forEach {ξ : Type} (f : ξ → Program Op Reply Unit) : List ξ → Program Op Reply Unit
  | [] => ret ()
  | x :: xs => (f x).bind fun _ => forEach f xs

/-- A loop over a list that carries a value. -/
def foldEach {ξ : Type} (f : α → ξ → Program Op Reply α) : α → List ξ → Program Op Reply α
  | a, [] => ret a
  | a, x :: xs => (f a x).bind fun b => foldEach f b xs

/-- The outcome of a program that has ended: a value, or `none` when it has thrown. -/
def outcome : Program Op Reply α → Option (Option α)
  | ret a => some (some a)
  | throw => some none
  | call _ _ => none

section

variable {σ ι : Type} (exec : (op : Op) → ι → σ → Option (σ × Option (Reply op)))

/-- The next call of a program, under an input that the call admits. -/
def step (input : ι) : Program Op Reply α → σ → Option (σ × Program Op Reply α)
  | call op k, s => (exec op input s).map fun (t, reply) => (t, k reply)
  | _, _ => none

/-- See the head of the module. -/
def Always (cut : Op → σ → Prop) (post : Option α → σ → Prop) : Program Op Reply α → σ → Prop
  | ret a, s => post (some a) s
  | throw, s => post none s
  | call op k, s =>
      cut op s ∧ ∀ input t reply, exec op input s = some (t, reply) → Always cut post (k reply) t

variable {exec} {cut : Op → σ → Prop} {post : Option α → σ → Prop} {s t : σ}

/-- A program that has ended is in a state that meets its postcondition. -/
theorem Always.of_outcome {p : Program Op Reply α} {o : Option α} (always : p.Always exec cut post s)
    (ended : p.outcome = some o) : post o s := by
  cases p with
  | ret a =>
      cases ended
      exact always
  | throw =>
      cases ended
      exact always
  | call op k => cases ended

/-- What holds of a program holds of the rest of it after a step. -/
theorem Always.step {p q : Program Op Reply α} {input : ι} (always : p.Always exec cut post s)
    (fire : p.step exec input s = some (t, q)) : q.Always exec cut post t := by
  cases p with
  | ret a => cases fire
  | throw => cases fire
  | call op k =>
      obtain ⟨_, done, eq⟩ := Option.map_eq_some_iff.mp fire
      cases eq
      exact always.2 input _ _ done

theorem Always.mono {post' : Option α → σ → Prop} {p : Program Op Reply α}
    (weaker : ∀ o t, post o t → post' o t) (always : p.Always exec cut post s) :
    p.Always exec cut post' s := by
  induction p generalizing s with
  | ret a => exact weaker _ _ always
  | throw => exact weaker _ _ always
  | call op k ih =>
      exact ⟨always.1, fun input t reply done => ih reply (always.2 input t reply done)⟩

theorem Always.anywhere {p : Program Op Reply α} (always : p.Always exec cut post s) :
    p.Always exec (fun _ _ => True) post s := by
  induction p generalizing s with
  | ret a => exact always
  | throw => exact always
  | call op k ih =>
      exact ⟨trivial, fun input t reply done => ih reply (always.2 input t reply done)⟩

theorem Always.await {op : Op} {post : Option (Reply op) → σ → Prop} (here : cut op s)
    (next : ∀ input t reply, exec op input s = some (t, reply) → post reply t) :
    (Program.await op).Always exec cut post s := by
  refine ⟨here, fun input t reply done => ?_⟩
  cases reply with
  | some r => exact next input t _ done
  | none => exact next input t _ done

/-- Sequencing: the rest is run from the states in which the first part returns. -/
theorem Always.bind {post : Option β → σ → Prop} {p : Program Op Reply α}
    {f : α → Program Op Reply β}
    (always : p.Always exec cut
      (fun o t => match o with
        | some a => (f a).Always exec cut post t
        | none => post none t) s) :
    (p.bind f).Always exec cut post s := by
  induction p generalizing s with
  | ret a => exact always
  | throw => exact always
  | call op k ih =>
      exact ⟨always.1, fun input t reply done => ih reply (always.2 input t reply done)⟩

theorem Always.of_bind {post : Option β → σ → Prop} {p : Program Op Reply α}
    {f : α → Program Op Reply β} (always : (p.bind f).Always exec cut post s) :
    p.Always exec cut
      (fun o t => match o with
        | some a => (f a).Always exec cut post t
        | none => post none t) s := by
  induction p generalizing s with
  | ret a => exact always
  | throw => exact always
  | call op k ih =>
      exact ⟨always.1, fun input t reply done => ih reply (always.2 input t reply done)⟩

/-- A sequence that never throws, as a sequence. -/
theorem Always.of_bind_returns {post : β → σ → Prop} {p : Program Op Reply α}
    {f : α → Program Op Reply β}
    (always : (p.bind f).Always exec cut (fun o t => ∃ b, o = some b ∧ post b t) s) :
    p.Always exec cut (fun o t => ∃ a, o = some a ∧
      (f a).Always exec cut (fun o t => ∃ b, o = some b ∧ post b t) t) s := by
  refine (Always.of_bind always).mono fun o t kept => ?_
  cases o with
  | some a => exact ⟨a, rfl, kept⟩
  | none => obtain ⟨_, ⟨⟩, _⟩ := kept

/-- Catching: the handler is run from the states in which the program throws. -/
theorem Always.orElse {p handler : Program Op Reply α}
    (always : p.Always exec cut
      (fun o t => match o with
        | some a => post (some a) t
        | none => handler.Always exec cut post t) s) :
    (p.orElse handler).Always exec cut post s := by
  induction p generalizing s with
  | ret a => exact always
  | throw => exact always
  | call op k ih =>
      exact ⟨always.1, fun input t reply done => ih reply (always.2 input t reply done)⟩

theorem Always.attempt {p : Program Op Reply α} {post : Option (Option α) → σ → Prop}
    (always : p.Always exec cut (fun o t => post (some o) t) s) :
    p.attempt.Always exec cut post s := by
  refine Always.orElse (Always.bind (always.mono fun o t kept => ?_))
  cases o with
  | some a => exact kept
  | none => exact kept

theorem Always.ensure {c : Prop} [Decidable c] {post : Option Unit → σ → Prop}
    (holds : c → post (some ()) s) (fails : ¬ c → post none s) :
    (Program.ensure c : Program Op Reply Unit).Always exec cut post s := by
  unfold Program.ensure
  split
  · exact holds ‹_›
  · exact fails ‹_›

/-- A loop keeps an invariant of the elements that are left. -/
theorem Always.forEach {ξ : Type} {f : ξ → Program Op Reply Unit} {post : Option Unit → σ → Prop}
    (inv : List ξ → σ → Prop)
    (body : ∀ x rest s, inv (x :: rest) s → (f x).Always exec cut
      (fun o t => match o with
        | some _ => inv rest t
        | none => post none t) s)
    (done : ∀ s, inv [] s → post (some ()) s) {xs : List ξ} (start : inv xs s) :
    (Program.forEach f xs).Always exec cut post s := by
  induction xs generalizing s with
  | nil => exact done s start
  | cons x rest ih =>
      refine Always.bind ((body x rest s start).mono fun o t kept => ?_)
      cases o with
      | some _ => exact ih kept
      | none => exact kept

/-- A loop that carries a value keeps an invariant of the value and of the elements
that are left. -/
theorem Always.foldEach {ξ : Type} {f : α → ξ → Program Op Reply α} (inv : α → List ξ → σ → Prop)
    (body : ∀ a x rest s, inv a (x :: rest) s → (f a x).Always exec cut
      (fun o t => match o with
        | some b => inv b rest t
        | none => post none t) s)
    (done : ∀ a s, inv a [] s → post (some a) s) {xs : List ξ} {a : α} (start : inv a xs s) :
    (Program.foldEach f a xs).Always exec cut post s := by
  induction xs generalizing a s with
  | nil => exact done a s start
  | cons x rest ih =>
      refine Always.bind ((body a x rest s start).mono fun o t kept => ?_)
      cases o with
      | some b => exact ih kept
      | none => exact kept

end

/-! ## Complete runs -/

section

variable {σ ι : Type} (exec : (op : Op) → ι → σ → Option (σ × Option (Reply op)))
  (ok : (op : Op) → ι → σ → Prop)

/-- The program ends with this outcome in this state, on inputs that all meet `ok`. -/
inductive Runs : Program Op Reply α → σ → Option α → σ → Prop
  | ret {a : α} {s : σ} : Runs (ret a) s (some a) s
  | throw {s : σ} : Runs throw s none s
  | call {op : Op} {k : Option (Reply op) → Program Op Reply α} {input : ι} {s t u : σ}
      {reply : Option (Reply op)} {o : Option α} :
      ok op input s → exec op input s = some (t, reply) → Runs (k reply) t o u →
      Runs (call op k) s o u

/-- Run a program on given inputs. A call after the last of them fails, and the program
throws; `none` when an input does not fit its call or is left over. -/
def run : List ι → Program Op Reply α → σ → Option (σ × Option α)
  | [], ret a, s => some (s, some a)
  | [], _, s => some (s, none)
  | input :: inputs, call op k, s => (exec op input s).bind fun (t, reply) => run inputs (k reply) t
  | _ :: _, _, _ => none

open Classical in
/-- The calls whose inputs meet `ok`. -/
noncomputable def guarded (op : Op) (input : ι) (s : σ) : Option (σ × Option (Reply op)) :=
  if ok op input s then exec op input s else none

variable {exec ok} {cut : Op → σ → Prop} {post : Option α → σ → Prop} {s t : σ}

theorem Always.await_guarded {op : Op} {post : Option (Reply op) → σ → Prop} (here : cut op s)
    (next : ∀ input t reply, ok op input s → exec op input s = some (t, reply) → post reply t) :
    (Program.await op).Always (guarded exec ok) cut post s := by
  refine Always.await here fun input t reply done => ?_
  rw [guarded] at done
  split at done
  · exact next input t reply ‹_› done
  · cases done

/-- A run on inputs that meet more. -/
theorem Runs.mono {ok' : (op : Op) → ι → σ → Prop} {p : Program Op Reply α} {o : Option α}
    (weaker : ∀ op input s, ok op input s → ok' op input s) (runs : p.Runs exec ok s o t) :
    p.Runs exec ok' s o t := by
  induction runs with
  | ret => exact .ret
  | throw => exact .throw
  | call meets done _ ih => exact .call (weaker _ _ _ meets) done ih

theorem Always.of_runs {p : Program Op Reply α} {o : Option α}
    (always : p.Always (guarded exec ok) cut post s) (runs : p.Runs exec ok s o t) : post o t := by
  induction runs with
  | ret => exact always
  | throw => exact always
  | call meets done _ ih => exact ih (always.2 _ _ _ (by rw [guarded, if_pos meets, done]))

/-- Where a run on given inputs ends: at the end of the program, or before a call. -/
theorem Always.of_run {p : Program Op Reply α} {inputs : List ι} {o : Option α}
    (always : p.Always exec cut post s) (done : p.run exec inputs s = some (t, o)) :
    post o t ∨ o = none ∧ ∃ op, cut op t := by
  induction inputs generalizing p s with
  | nil =>
      cases p with
      | ret a =>
          cases done
          exact .inl always
      | throw =>
          cases done
          exact .inl always
      | call op k =>
          cases done
          exact .inr ⟨rfl, op, always.1⟩
  | cons input inputs ih =>
      cases p with
      | ret a => cases done
      | throw => cases done
      | call op k =>
          obtain ⟨⟨u, reply⟩, first, rest⟩ := Option.bind_eq_some_iff.mp done
          exact ih (always.2 _ _ _ first) rest

/-- Whatever the inputs had to meet. -/
theorem Always.of_complete {p : Program Op Reply α} {o : Option α}
    (always : p.Always exec cut post s) (runs : p.Runs exec ok s o t) : post o t := by
  induction runs with
  | ret => exact always
  | throw => exact always
  | call _ done _ ih => exact ih (always.2 _ _ _ done)

theorem run_guarded {p : Program Op Reply α} {inputs : List ι}
    (meets : ∀ input ∈ inputs, ∀ op t, ok op input t) :
    p.run (guarded exec ok) inputs s = p.run exec inputs s := by
  induction inputs generalizing p s with
  | nil => cases p <;> rfl
  | cons input inputs ih =>
      cases p with
      | ret a => rfl
      | throw => rfl
      | call op k =>
          simp only [run, guarded, if_pos (meets input List.mem_cons_self op s)]
          exact Option.bind_congr fun _ _ => ih fun i mem => meets i (List.mem_cons_of_mem _ mem)

/-- A run on given inputs that passes a check before every call and uses no failing call
at its end. -/
theorem Runs.of_run {check : (op : Op) → ι → σ → Bool}
    (sound : ∀ op input s, check op input s = true → ok op input s) {p : Program Op Reply α}
    {inputs : List ι} {a : α}
    (done : p.run (fun op input s => if check op input s then exec op input s else none) inputs s =
      some (t, some a)) : p.Runs exec ok s (some a) t := by
  induction inputs generalizing p s with
  | nil =>
      cases p <;> cases done
      exact .ret
  | cons input inputs ih =>
      cases p with
      | ret a => cases done
      | throw => cases done
      | call op k =>
          obtain ⟨⟨u, reply⟩, first, rest⟩ := Option.bind_eq_some_iff.mp done
          dsimp only at first
          split at first
          · exact .call (sound op input s ‹_›) first (ih rest)
          · cases first

/-- Run a program to its end in an environment that answers by the state. -/
def play (exec : (op : Op) → ι → σ → Option (σ × Option (Reply op))) (choose : σ → ι) :
    Program Op Reply α → σ → Option (σ × Option α)
  | ret a, s => some (s, some a)
  | throw, s => some (s, none)
  | call op k, s => (exec op (choose s) s).bind fun (t, reply) => play exec choose (k reply) t

theorem Runs.of_play {choose : σ → ι} {p : Program Op Reply α} {o : Option α}
    (played : p.play exec choose s = some (t, o)) : p.Runs exec (fun _ _ _ => True) s o t := by
  induction p generalizing s with
  | ret a =>
      cases played
      exact .ret
  | throw =>
      cases played
      exact .throw
  | call op k ih =>
      obtain ⟨⟨u, reply⟩, first, rest⟩ := Option.bind_eq_some_iff.mp played
      exact .call trivial first (ih reply rest)

/-! ## Stopped runs -/

/-- The state when a program is stopped after some calls, or has ended. -/
def stopAfter (exec : (op : Op) → ι → σ → Option (σ × Option (Reply op))) (choose : σ → ι) :
    Nat → Program Op Reply α → σ → σ
  | n + 1, call op k, s =>
      match exec op (choose s) s with
      | some (t, reply) => stopAfter exec choose n (k reply) t
      | none => s
  | _, _, s => s

theorem Always.of_stopAfter (choose : σ → ι) {p : Program Op Reply α}
    (always : p.Always exec cut post s) (n : Nat) :
    (∃ op, cut op (stopAfter exec choose n p s)) ∨ ∃ o, post o (stopAfter exec choose n p s) := by
  induction n generalizing p s with
  | zero =>
      cases p with
      | ret a => exact .inr ⟨some a, always⟩
      | throw => exact .inr ⟨none, always⟩
      | call op k => exact .inl ⟨op, always.1⟩
  | succ n ih =>
      cases p with
      | ret a => exact .inr ⟨some a, always⟩
      | throw => exact .inr ⟨none, always⟩
      | call op k =>
          rw [stopAfter]
          split
          · exact ih (always.2 _ _ _ ‹_›)
          · exact .inl ⟨op, always.1⟩

/-- The calls, and the last one that has succeeded. -/
def logged (exec : (op : Op) → ι → σ → Option (σ × Option (Reply op))) (op : Op) (input : ι)
    (s : σ × Option Op) : Option ((σ × Option Op) × Option (Reply op)) :=
  (exec op input s.1).map fun (t, reply) => ((t, if reply.isSome then some op else s.2), reply)

theorem Always.of_logged {cut : Op → σ × Option Op → Prop} {post : Option α → σ × Option Op → Prop}
    {p : Program Op Reply α} {s : σ × Option Op} (always : p.Always (logged exec) cut post s) :
    p.Always exec (fun op t => ∃ last, cut op (t, last)) (fun o t => ∃ last, post o (t, last))
      s.1 := by
  induction p generalizing s with
  | ret a => exact ⟨s.2, always⟩
  | throw => exact ⟨s.2, always⟩
  | call op k ih =>
      refine ⟨⟨s.2, always.1⟩, fun input t reply done => ?_⟩
      have log : logged exec op input s = some ((t, if reply.isSome then some op else s.2), reply) := by
        simp only [logged, done, Option.map_some]
      exact ih reply (always.2 _ _ _ log)

end

end Program

/-! ## Protocols -/

/-- Which calls are allowed, and where their replies lead. A call that fails leads
nowhere. -/
structure Protocol (Op : Type) (Reply : Op → Type) (γ : Type) where
  may : Op → γ → Prop
  next : (op : Op) → Reply op → γ → γ

namespace Protocol

variable {Op : Type} {Reply : Op → Type} {γ α : Type} (P : Protocol Op Reply γ)

/-- The protocol as a meaning of the calls: the environment chooses every reply. -/
def exec (op : Op) (replies : (op : Op) → Option (Reply op)) (g : γ) :
    Option (γ × Option (Reply op)) :=
  match replies op with
  | some reply => some (P.next op reply g, some reply)
  | none => some (g, none)

/-- Every call of the program is allowed where it is made. -/
def Follows (p : Program Op Reply α) (g : γ) : Prop :=
  p.Always P.exec P.may (fun _ _ => True) g

variable {P} {g : γ}

theorem await {op : Op} {post : Option (Reply op) → γ → Prop} (allowed : P.may op g)
    (returned : ∀ reply, post (some reply) (P.next op reply g)) (thrown : post none g) :
    (Program.await op).Always P.exec P.may post g := by
  refine Program.Always.await allowed fun replies t reply done => ?_
  simp only [exec] at done
  split at done <;> cases done
  · exact returned _
  · exact thrown

theorem Follows.allowed {op : Op} {k : Option (Reply op) → Program Op Reply α}
    (follows : P.Follows (.call op k) g) : P.may op g := follows.1

theorem Follows.returned [DecidableEq Op] {op : Op} {k : Option (Reply op) → Program Op Reply α}
    (follows : P.Follows (.call op k) g) (reply : Reply op) :
    P.Follows (k (some reply)) (P.next op reply g) := by
  refine follows.2 (fun o => if same : op = o then some (same ▸ reply) else none) _ _ ?_
  simp only [exec, ↓reduceDIte]

theorem Follows.thrown {op : Op} {k : Option (Reply op) → Program Op Reply α}
    (follows : P.Follows (.call op k) g) : P.Follows (k none) g :=
  follows.2 (fun _ => none) _ _ rfl

end Protocol

end Opensquid.Lib
