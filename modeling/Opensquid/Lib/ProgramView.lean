import Opensquid.Lib.Program

/-!
# Programs seen with fewer calls

A view says which calls of a program are seen, and as which calls with which replies. A program is
seen as another one when its seen calls are those of the other, in their order, and both end alike,
whatever the calls reply. The calls that are not seen are told, not asked: they do not fail, and
what they reply does not matter to the other program.
-/

namespace Opensquid.Lib.Program

variable {Op Op' : Type} {Reply : Op → Type} {Reply' : Op' → Type} {α α' β β' : Type}

theorem bind_assoc (p : Program Op Reply α) (f : α → Program Op Reply β)
    (g : β → Program Op Reply β') : (p.bind f).bind g = p.bind fun a => (f a).bind g := by
  induction p with
  | ret a => rfl
  | throw => rfl
  | call op k ih => exact congrArg (call op) (funext ih)

/-- The call as which a call is seen, and its replies as they are seen. -/
structure Seen (Reply : Type) (Reply' : Op' → Type) where
  op : Op'
  reply : Reply → Reply' op

/-- See the head of the module. -/
inductive SeenAs (view : (op : Op) → Option (Seen (Reply op) Reply')) (f : α → β) :
    Program Op Reply α → Program Op' Reply' β → Prop
  | ret (a : α) : SeenAs view f (ret a) (ret (f a))
  | throw : SeenAs view f throw throw
  | hidden {op : Op} {k : Option (Reply op) → Program Op Reply α} {q : Program Op' Reply' β} :
      view op = none → (∀ reply, SeenAs view f (k (some reply)) q) → SeenAs view f (call op k) q
  | seen {op : Op} {as : Seen (Reply op) Reply'} {k : Option (Reply op) → Program Op Reply α}
      {k' : Option (Reply' as.op) → Program Op' Reply' β} :
      view op = some as → (∀ reply, SeenAs view f (k reply) (k' (reply.map as.reply))) →
      SeenAs view f (call op k) (call as.op k')

namespace SeenAs

variable {view : (op : Op) → Option (Seen (Reply op) Reply')} {f : α → β} {g : α' → β'}
  {p handler : Program Op Reply α} {q handler' : Program Op' Reply' β}

theorem bind {k : α → Program Op Reply α'} {k' : β → Program Op' Reply' β'}
    (first : SeenAs view f p q) (rest : ∀ a, SeenAs view g (k a) (k' (f a))) :
    SeenAs view g (p.bind k) (q.bind k') := by
  induction first with
  | ret a => exact rest a
  | throw => exact .throw
  | hidden unseen _ ih => exact .hidden unseen ih
  | seen here _ ih => exact .seen here ih

theorem orElse (first : SeenAs view f p q) (caught : SeenAs view f handler handler') :
    SeenAs view f (p.orElse handler) (q.orElse handler') := by
  induction first with
  | ret a => exact .ret a
  | throw => exact caught
  | hidden unseen _ ih => exact .hidden unseen ih
  | seen here _ ih => exact .seen here ih

theorem attempt (same : SeenAs view f p q) :
    SeenAs view (Option.map f) p.attempt q.attempt :=
  orElse (same.bind fun a => .ret (some a)) (.ret none)

theorem await (op : Op) (op' : Op') {asked : Reply op → Reply' op'}
    (here : view op = some ⟨op', asked⟩) :
    SeenAs view asked (Program.await op) (Program.await op') := by
  refine .seen here fun reply => ?_
  cases reply with
  | none => exact .throw
  | some reply => exact .ret reply

/-- A call that is not seen stands in front of what is seen. -/
theorem unseen (op : Op) {k : Reply op → Program Op Reply α} (unseen : view op = none)
    (rest : ∀ reply, SeenAs view f (k reply) q) : SeenAs view f ((Program.await op).bind k) q :=
  .hidden unseen rest

theorem unseen_attempt (op : Op) {k : Option (Reply op) → Program Op Reply α}
    (unseen : view op = none) (rest : ∀ reply, SeenAs view f (k (some reply)) q) :
    SeenAs view f ((Program.await op).attempt.bind k) q :=
  .hidden unseen rest

/-- If every call has the effect of the call as which it is seen, and the others have none, then a
run of a program is seen as a run of the other program. -/
theorem runs {σ σ' ι ι' : Type} {exec : (op : Op) → ι → σ → Option (σ × Option (Reply op))}
    {exec' : (op : Op') → ι' → σ' → Option (σ' × Option (Reply' op))}
    {ok : (op : Op) → ι → σ → Prop} {abs : σ → σ'}
    (told : ∀ op input s t reply, view op = none → exec op input s = some (t, reply) →
      abs t = abs s ∧ reply.isSome)
    (asked : ∀ op input s t reply as, view op = some as → exec op input s = some (t, reply) →
      ∃ input', exec' as.op input' (abs s) = some (abs t, reply.map as.reply))
    (same : SeenAs view f p q) {s t : σ} {o : Option α} (run : p.Runs exec ok s o t) :
    q.Runs exec' (fun _ _ _ => True) (abs s) (o.map f) (abs t) := by
  induction same generalizing s with
  | ret a =>
      cases run
      exact .ret
  | throw =>
      cases run
      exact .throw
  | hidden unseen _ ih =>
      cases run with
      | call _ done rest =>
          obtain ⟨kept, replied⟩ := told _ _ _ _ _ unseen done
          obtain ⟨reply, rfl⟩ := Option.isSome_iff_exists.mp replied
          exact kept ▸ ih reply rest
  | seen here _ ih =>
      cases run with
      | call _ done rest =>
          obtain ⟨input', done'⟩ := asked _ _ _ _ _ _ here done
          exact .call trivial done' (ih _ rest)

end SeenAs

end Opensquid.Lib.Program
