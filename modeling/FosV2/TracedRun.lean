import Mathlib.Data.List.Basic
import Mathlib.Order.Defs.Unbundled

/-!
Stateful computations that may stop with an error and note things on the way. The notes are
kept apart from the state, and what has been noted before an error stays.
-/

structure Outcome (ε σ ι α : Type) where
  result : Except ε α
  state : σ
  trace : List ι

def Traced (ε σ ι α : Type) : Type := σ → Outcome ε σ ι α

namespace Traced

variable {ε σ ι α β : Type}

instance : Monad (Traced ε σ ι) where
  pure a := fun s => ⟨.ok a, s, []⟩
  bind x next := fun s =>
    match x s with
    | ⟨.ok a, s, trace⟩ =>
        let rest := next a s
        { rest with trace := trace ++ rest.trace }
    | ⟨.error stop, s, trace⟩ => ⟨.error stop, s, trace⟩

def note (i : ι) : Traced ε σ ι Unit := fun s => ⟨.ok (), s, [i]⟩

def get : Traced ε σ ι σ := fun s => ⟨.ok s, s, []⟩

def modify (change : σ → σ) : Traced ε σ ι Unit := fun s => ⟨.ok (), change s, []⟩

def fail (stop : ε) : Traced ε σ ι α := fun s => ⟨.error stop, s, []⟩

def Notes (x : Traced ε σ ι α) (notes : List ι) : Prop := ∀ s, (x s).trace = notes

variable {x : Traced ε σ ι α} {next : α → Traced ε σ ι β} {notes : List ι}

theorem Notes.pure (a : α) : Notes (pure a : Traced ε σ ι α) [] := fun _ => rfl

theorem Notes.fail (stop : ε) : Notes (fail stop : Traced ε σ ι α) [] := fun _ => rfl

theorem Notes.modify (change : σ → σ) : Notes (modify change : Traced ε σ ι Unit) [] :=
  fun _ => rfl

theorem Notes.note_bind {next : Unit → Traced ε σ ι β} (i : ι) (rest : Notes (next ()) notes) :
    Notes (note i >>= next) (i :: notes) :=
  fun s => congrArg (i :: ·) (rest s)

theorem Notes.get_bind {next : σ → Traced ε σ ι β} (rest : ∀ s, Notes (next s) notes) :
    Notes (get >>= next) notes :=
  fun s => rest s s

theorem Notes.modify_bind {change : σ → σ} {next : Unit → Traced ε σ ι β}
    (rest : Notes (next ()) notes) : Notes (Traced.modify change >>= next) notes :=
  fun s => rest (change s)

/-- Behind a step that may stop nothing may be noted. -/
theorem Notes.bind (first : Notes x []) (rest : ∀ a, Notes (next a) []) :
    Notes (x >>= next) [] := by
  intro s
  have none := first s
  change (match x s with
    | ⟨.ok a, s, trace⟩ =>
        let rest := next a s
        { rest with trace := trace ++ rest.trace }
    | ⟨.error stop, s, trace⟩ => ⟨.error stop, s, trace⟩ : Outcome ε σ ι β).trace = []
  split
  · rename_i a s' trace same
    rw [same] at none
    dsimp only at none ⊢
    rw [none, rest a s', List.nil_append]
  · rename_i stop s' trace same
    rw [same] at none
    exact none

/-- Whatever becomes of `x`, the state it leaves is related to the one it has found. -/
def Within (rel : σ → σ → Prop) (x : Traced ε σ ι α) : Prop := ∀ s, rel s (x s).state

section Within

variable {rel weaker : σ → σ → Prop}

theorem Within.modify {change : σ → σ} (related : ∀ s, rel s (change s)) :
    Within rel (modify change : Traced ε σ ι Unit) := related

theorem Within.mono (within : Within rel x) (implies : ∀ s s', rel s s' → weaker s s') :
    Within weaker x := fun s => implies _ _ (within s)

variable [Std.Refl rel]

theorem Within.pure (a : α) : Within rel (pure a : Traced ε σ ι α) := Std.Refl.refl

theorem Within.fail (stop : ε) : Within rel (fail stop : Traced ε σ ι α) := Std.Refl.refl

theorem Within.note (i : ι) : Within rel (note i : Traced ε σ ι Unit) := Std.Refl.refl

theorem Within.get : Within rel (get : Traced ε σ ι σ) := Std.Refl.refl

omit [Std.Refl rel] in
theorem Within.bind [IsTrans σ rel] (first : Within rel x) (rest : ∀ a, Within rel (next a)) :
    Within rel (x >>= next) := by
  intro s
  have before := first s
  change rel s (match x s with
    | ⟨.ok a, s, trace⟩ =>
        let rest := next a s
        { rest with trace := trace ++ rest.trace }
    | ⟨.error stop, s, trace⟩ => ⟨.error stop, s, trace⟩ : Outcome ε σ ι β).state
  split
  · rename_i a s' trace same
    rw [same] at before
    exact IsTrans.trans _ _ _ before (rest a s')
  · rename_i stop s' trace same
    rw [same] at before
    exact before

end Within

end Traced
