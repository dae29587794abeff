import Mathlib.Data.List.Basic

/-!
# Walks with a filter

A walk over a list takes the entries that a filter keeps, each in the state that the ones before it
have left, until one stops it or fails. Two filters give one walk if and only if they agree on what
the walk under one of them comes to (`walk_eq_some_iff`).
-/

namespace Opensquid.Lib

variable {α σ : Type*}

/-- `step` gives the state after an entry and whether the walk stops there; `none` is a failure. -/
def walk (keeps : α → Bool) (step : σ → α → Option (σ × Bool)) : σ → List α → Option σ
  | s, [] => some s
  | s, x :: xs =>
      if keeps x then
        match step s x with
        | none => none
        | some (s', true) => some s'
        | some (s', false) => walk keeps step s' xs
      else walk keeps step s xs

/-- The entries that the walk comes to, those that it passes by among them. -/
def reached (keeps : α → Bool) (step : σ → α → Option (σ × Bool)) : σ → List α → List α
  | _, [] => []
  | s, x :: xs =>
      x :: if keeps x then
        match step s x with
        | some (s', false) => reached keeps step s' xs
        | _ => []
      else reached keeps step s xs

variable {keeps q r : α → Bool} {step : σ → α → Option (σ × Bool)} {s s' t : σ} {x : α}
  {xs : List α}

theorem walk_cons_of_neg (out : keeps x = false) :
    walk keeps step s (x :: xs) = walk keeps step s xs := by
  rw [walk, if_neg (by simp [out])]

theorem walk_cons_of_stop (kept : keeps x = true) (stop : step s x = some (s', true)) :
    walk keeps step s (x :: xs) = some s' := by
  rw [walk, if_pos kept, stop]

theorem walk_cons_of_go (kept : keeps x = true) (go : step s x = some (s', false)) :
    walk keeps step s (x :: xs) = walk keeps step s' xs := by
  rw [walk, if_pos kept, go]

theorem walk_cons_of_none (kept : keeps x = true) (fails : step s x = none) :
    walk keeps step s (x :: xs) = none := by
  rw [walk, if_pos kept, fails]

theorem mem_of_mem_reached {y : α} (mem : y ∈ reached keeps step s xs) : y ∈ xs := by
  induction xs generalizing s with
  | nil => cases mem
  | cons x xs ih =>
      rw [reached] at mem
      rcases List.mem_cons.mp mem with rfl | later
      · exact List.mem_cons_self
      · apply List.mem_cons_of_mem
        split at later
        · split at later
          · exact ih later
          · cases later
        · exact ih later

/-- The state tells which entries have been walked. -/
def Traces (trace : σ → List α) (step : σ → α → Option (σ × Bool)) : Prop :=
  ∀ s x s' stop, step s x = some (s', stop) → trace s' = trace s ++ [x]

section Trace

variable {trace : σ → List α}

/-- What is walked passes the filter. -/
theorem trace_of_walk (leaves : Traces trace step) (done : walk keeps step s xs = some t) :
    ∃ l, trace t = trace s ++ l ∧ ∀ y ∈ l, keeps y = true := by
  induction xs generalizing s with
  | nil =>
      rw [walk, Option.some_inj] at done
      exact ⟨[], by simp [done], by simp⟩
  | cons x xs ih =>
      cases kept : keeps x with
      | false => exact ih (walk_cons_of_neg kept ▸ done)
      | true =>
          rcases taken : step s x with _ | ⟨s', _ | _⟩
          · rw [walk_cons_of_none kept taken] at done
            cases done
          · rw [walk_cons_of_go kept taken] at done
            obtain ⟨l, same, all⟩ := ih done
            refine ⟨x :: l, ?_, ?_⟩
            · rw [same, leaves s x s' _ taken, List.append_assoc, List.singleton_append]
            · simpa [kept] using all
          · rw [walk_cons_of_stop kept taken, Option.some_inj] at done
            exact ⟨[x], by rw [← done, leaves s x s' _ taken], by simp [kept]⟩

theorem trace_of_walk_cons (leaves : Traces trace step) (kept : keeps x = true)
    (done : walk keeps step s (x :: xs) = some t) : ∃ l, trace t = trace s ++ x :: l := by
  rcases taken : step s x with _ | ⟨s', _ | _⟩
  · rw [walk_cons_of_none kept taken] at done
    cases done
  · rw [walk_cons_of_go kept taken] at done
    obtain ⟨l, same, -⟩ := trace_of_walk leaves done
    exact ⟨l, by rw [same, leaves s x s' _ taken, List.append_assoc, List.singleton_append]⟩
  · rw [walk_cons_of_stop kept taken, Option.some_inj] at done
    exact ⟨[], by rw [← done, leaves s x s' _ taken]⟩

/-- A walk that takes the first entry is none that the filter passes it by in. -/
theorem walk_ne_of_out (leaves : Traces trace step) (inside : q x = true)
    (outside : r x = false) (done : walk q step s (x :: xs) = some t) :
    walk r step s (x :: xs) ≠ some t := by
  intro other
  obtain ⟨taken, same⟩ := trace_of_walk_cons leaves inside done
  obtain ⟨l, same', all⟩ := trace_of_walk leaves other
  have eq : x :: taken = l := List.append_cancel_left (same.symm.trans same')
  have kept := all x (eq ▸ List.mem_cons_self)
  rw [outside] at kept
  cases kept

theorem walk_eq_some_iff (leaves : Traces trace step) (done : walk q step s xs = some t) :
    walk r step s xs = some t ↔ ∀ x ∈ reached r step s xs, q x = r x := by
  induction xs generalizing s with
  | nil => simpa [walk, reached] using done
  | cons x xs ih =>
      cases inside : q x <;> cases inside' : r x
      · rw [walk_cons_of_neg inside] at done
        rw [walk_cons_of_neg inside', ih done, reached]
        simp [inside, inside']
      · refine iff_of_false (fun other => ?_) fun agree => ?_
        · exact walk_ne_of_out leaves inside' inside other done
        · have same := agree x (by simp [reached])
          simp [inside, inside'] at same
      · refine iff_of_false (walk_ne_of_out leaves inside inside' done) fun agree => ?_
        have same := agree x (by simp [reached])
        simp [inside, inside'] at same
      · rcases taken : step s x with _ | ⟨s', _ | _⟩
        · rw [walk_cons_of_none inside taken] at done
          cases done
        · rw [walk_cons_of_go inside taken] at done
          rw [walk_cons_of_go inside' taken, ih done, reached]
          simp [inside, inside', taken]
        · rw [walk_cons_of_stop inside taken] at done
          rw [walk_cons_of_stop inside' taken, reached]
          simp [inside, inside', taken, Option.some_inj.mp done]

end Trace

/-! ## Folds that can fail -/

section Fold

variable {β ε : Type*}

theorem foldlM_eq_ok {g : β → α → Except ε β} {xs : List α} (same : ∀ w, ∀ x ∈ xs, g w x = .ok w)
    (w : β) : xs.foldlM g w = .ok w := by
  induction xs with
  | nil => rfl
  | cons x xs ih =>
      rw [List.foldlM_cons, same w x List.mem_cons_self]
      exact ih fun w y later => same w y (List.mem_cons_of_mem _ later)

theorem foldlM_congr_mem {g h : β → α → Except ε β} {xs : List α}
    (same : ∀ w, ∀ x ∈ xs, g w x = h w x) (w : β) : xs.foldlM g w = xs.foldlM h w := by
  induction xs generalizing w with
  | nil => rfl
  | cons x xs ih =>
      rw [List.foldlM_cons, List.foldlM_cons, same w x List.mem_cons_self]
      exact bind_congr fun w => ih (fun w y later => same w y (List.mem_cons_of_mem _ later)) w

theorem foldlM_flatMap {γ : Type*} {g : β → γ → Except ε β} {h : α → List γ} {xs : List α} (w : β) :
    (xs.flatMap h).foldlM g w = xs.foldlM (fun w x => (h x).foldlM g w) w := by
  induction xs generalizing w with
  | nil => rfl
  | cons x xs ih =>
      rw [List.flatMap_cons, List.foldlM_append, List.foldlM_cons]
      exact bind_congr ih

end Fold

end Opensquid.Lib
