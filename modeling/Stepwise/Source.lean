import Stepwise.Effect

/-!
# Sources

A source is a private state `I` that is asked for its next element. It may have an effect on the
world, and it may go on after it has said that there is no element.

* `Lookahead` keeps one answer of a source back, so that a loop can see whether there is a first
  element before it starts.
* `Next.ofList` asks a list.
-/

namespace Stepwise
set_option autoImplicit false

/-- How a source is asked for its next element. -/
abbrev Next (W I α : Type) := I → Effect W (Option α × I)

def Next.ofList {W α : Type} : Next W (List α) α
  | [] => pure (none, [])
  | x :: rest => pure (some x, rest)

/-- A source together with the answer that was asked for ahead of time, if any. -/
structure Lookahead (I α : Type) where
  source : I
  seen : Option (Option α) := none

namespace Lookahead

variable {W I α S : Type}

/-- The next answer, which stays the next one. -/
def peek (next : Next W I α) : Next W (Lookahead I α) α := fun a =>
  match a.seen with
  | some x => pure (x, a)
  | none => do
    let (x, source) ← next a.source
    pure (x, { source, seen := some x })

/-- The next answer: the one that was kept back, or a new one. -/
def next (next : Next W I α) : Next W (Lookahead I α) α := fun a =>
  match a.seen with
  | some x => pure (x, { a with seen := none })
  | none => do
    let (x, source) ← next a.source
    pure (x, { source, seen := none })

theorem peek_peek (n : Next W I α) (a : Lookahead I α) :
    (do let (_, a) ← peek n a; peek n a) = peek n a := by
  obtain ⟨source, seen⟩ := a
  cases seen with
  | some x => rfl
  | none =>
    funext w
    simp only [peek, Effect.bind_apply]
    cases n source w <;> rfl

theorem next_peek (n : Next W I α) (a : Lookahead I α) :
    (do let (_, a) ← peek n a; next n a) = next n a := by
  obtain ⟨source, seen⟩ := a
  cases seen with
  | some x => rfl
  | none =>
    funext w
    simp only [peek, next, Effect.bind_apply]
    cases n source w <;> rfl

end Lookahead

end Stepwise
