import Opensquid.Lib.Program

/-!
# Computations that may throw

What a function that is stated for any monad needs to throw: an absent value, or a program
that ends without one; and how an `Except` that has not thrown is taken apart.
-/

namespace Opensquid.Lib

class Throws (M : Type → Type) where
  throwing {α : Type} : M α

export Throws (throwing)

instance : Throws Option := ⟨none⟩

instance {Op : Type} {Reply : Op → Type} : Throws (Program Op Reply) := ⟨.throw⟩

/-- A function with a state of its own; what it throws leaves no state. -/
instance {σ : Type} {M : Type → Type} [Throws M] : Throws (StateT σ M) := ⟨fun _ => throwing⟩

/-- Nothing follows what has been thrown. -/
class LawfulThrows (M : Type → Type) [Monad M] [Throws M] : Prop where
  throwing_bind {α β : Type} (f : α → M β) : (throwing : M α) >>= f = throwing

export LawfulThrows (throwing_bind)

instance : LawfulThrows Option := ⟨fun _ => rfl⟩

instance {Op : Type} {Reply : Op → Type} : LawfulThrows (Program Op Reply) := ⟨fun _ => rfl⟩

instance {σ : Type} {M : Type → Type} [Monad M] [Throws M] [LawfulThrows M] :
    LawfulThrows (StateT σ M) :=
  ⟨fun _ => funext fun _ => throwing_bind _⟩

@[simp] theorem throwing_option {α : Type} : (throwing : Option α) = none := rfl

@[simp] theorem throwing_program {Op : Type} {Reply : Op → Type} {α : Type} :
    (throwing : Program Op Reply α) = .throw := rfl

/-- What follows in an outcome that is not an error has not been reached by one. -/
theorem bind_ok_iff {ε α β : Type} {x : Except ε α} {f : α → Except ε β} {b : β} :
    x >>= f = .ok b ↔ ∃ a, x = .ok a ∧ f a = .ok b := by
  cases x with
  | error e => exact ⟨nofun, nofun⟩
  | ok a => exact ⟨fun done => ⟨a, rfl, done⟩, fun ⟨_, same, done⟩ => by cases same; exact done⟩

end Opensquid.Lib
