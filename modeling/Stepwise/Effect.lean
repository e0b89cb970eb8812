/-!
# Effects on a world

Everything this library runs, a step of a loop, a source that is asked for its next element, a
poll, is an `Effect W α`: it takes the world `W` it runs in and comes to an `Ending`.

* `returned` gives a result and the world that is left. `broken` says that something could not go
  on; all that it happened in is over with it, and the world is left as it was at that moment.
  `cut` says that the fuel gave out first, and shows the world that was reached: a computation that
  never comes to an end is `cut` at every fuel. No answer of the library, an error or a refusal
  included, is spelled in one of the last two ways.
* The code that runs is a tree of such functions and the order of effects is the order in which
  the world is handed on. Two programs that agree on every world make the same calls in the same
  order, because `W` may be taken to be a log of the calls.
* `Effect.attempt` turns a breakdown into a result. `within` and `Effect.owning` move a piece of
  private state in and out of the world.
-/

namespace Stepwise
set_option autoImplicit false

universe u v

/-- Why a computation could not go on. -/
inductive Breakdown
  /-- The next integer is too large. -/
  | overflow
deriving DecidableEq

def Breakdown.text : Breakdown → String
  | .overflow => "attempt to add with overflow"

/-- What a computation comes to. -/
inductive Ending (W : Type) (α : Type u) : Type u
  | returned (a : α) (w : W)
  | broken (reason : Breakdown) (w : W)
  | cut (w : W)

namespace Ending

variable {W : Type} {α : Type u}

def world : Ending W α → W
  | .returned _ w => w
  | .broken _ w => w
  | .cut w => w

def isCut : Ending W α → Bool
  | .cut _ => true
  | _ => false

@[simp] theorem world_returned (a : α) (w : W) : (returned a w).world = w := rfl

@[simp] theorem world_broken (reason : Breakdown) (w : W) :
    (broken reason w : Ending W α).world = w := rfl

@[simp] theorem world_cut (w : W) : (cut w : Ending W α).world = w := rfl

@[simp] theorem isCut_returned (a : α) (w : W) : (returned a w).isCut = false := rfl

@[simp] theorem isCut_broken (reason : Breakdown) (w : W) :
    (broken reason w : Ending W α).isCut = false := rfl

@[simp] theorem isCut_cut (w : W) : (cut w : Ending W α).isCut = true := rfl

end Ending

/-- A computation in the world `W` that gives an `α` if it returns. -/
def Effect (W : Type) (α : Type u) : Type u := W → Ending W α

namespace Effect

variable {W S : Type} {α : Type u} {β : Type v}

@[inline] protected def pure (a : α) : Effect W α := fun w => .returned a w

@[inline] protected def bind (m : Effect W α) (k : α → Effect W β) : Effect W β := fun w =>
  match m w with
  | .returned a w => k a w
  | .broken reason w => .broken reason w
  | .cut w => .cut w

@[always_inline] instance : Monad (Effect W) where
  pure := Effect.pure
  bind := Effect.bind

def cut : Effect W α := fun w => .cut w

def breakDown (reason : Breakdown) : Effect W α := fun w => .broken reason w

/-- What `f` sees of the world. -/
@[inline] def reads (f : W → α) : Effect W α := fun w => .returned (f w) w

@[inline] def changes (f : W → W) : Effect W Unit := fun w => .returned () (f w)

/-- Run `m`; a breakdown of it is a result. -/
@[inline] def attempt (m : Effect W α) : Effect W (Except Breakdown α) := fun w =>
  match m w with
  | .returned a w => .returned (.ok a) w
  | .broken reason w => .returned (.error reason) w
  | .cut w => .cut w

/-! ## Laws -/

theorem pure_apply (a : α) (w : W) : (pure a : Effect W α) w = .returned a w := rfl

theorem bind_apply {β : Type u} (m : Effect W α) (k : α → Effect W β) (w : W) :
    (m >>= k) w = match m w with
      | .returned a w => k a w
      | .broken reason w => .broken reason w
      | .cut w => .cut w := rfl

theorem bind_of_returned {β : Type u} {m : Effect W α} {w w' : W} {a : α} (k : α → Effect W β)
    (h : m w = .returned a w') : (m >>= k) w = k a w' := by
  rw [bind_apply, h]

theorem bind_of_broken {β : Type u} {m : Effect W α} {w w' : W} {reason : Breakdown}
    (k : α → Effect W β) (h : m w = .broken reason w') : (m >>= k) w = .broken reason w' := by
  rw [bind_apply, h]

theorem bind_of_cut {β : Type u} {m : Effect W α} {w w' : W} (k : α → Effect W β)
    (h : m w = .cut w') : (m >>= k) w = .cut w' := by
  rw [bind_apply, h]

theorem bind_of_eq {β : Type u} {m m' : Effect W α} {w w' : W} (k : α → Effect W β)
    (h : m w = m' w') : (m >>= k) w = (m' >>= k) w' := by
  rw [bind_apply, h, bind_apply]

instance : LawfulMonad (Effect W) :=
  LawfulMonad.mk' (Effect W)
    (fun m => by
      funext w
      change (match m w with
        | .returned a w => .returned a w
        | .broken reason w => .broken reason w
        | .cut w => .cut w) = m w
      cases m w <;> rfl)
    (fun _ _ => rfl)
    (fun m k l => by
      funext w
      simp only [bind_apply]
      cases m w <;> rfl)

/-! ## Private state beside the world -/

/-- Run `m` in a world that has a second part, which `m` neither reads nor changes. -/
@[inline] def within (S : Type) (m : Effect W α) : Effect (W × S) α := fun ws =>
  match m ws.1 with
  | .returned a w => .returned a (w, ws.2)
  | .broken reason w => .broken reason (w, ws.2)
  | .cut w => .cut (w, ws.2)

/-- Run `m`, which works on the world and on a private state, from the state `s`; the state it
leaves is given back beside the result. -/
@[inline] def owning (m : Effect (W × S) α) (s : S) : Effect W (α × S) := fun w =>
  match m (w, s) with
  | .returned a (w, s) => .returned (a, s) w
  | .broken reason (w, _) => .broken reason w
  | .cut (w, _) => .cut w

/-- Let the private state run through `m`. -/
@[inline] def stateful (m : S → Effect W (α × S)) : Effect (W × S) α := fun ws =>
  match m ws.2 ws.1 with
  | .returned (a, s) w => .returned a (w, s)
  | .broken reason w => .broken reason (w, ws.2)
  | .cut w => .cut (w, ws.2)

theorem owning_stateful (m : S → Effect W (α × S)) (s : S) : (stateful m).owning s = m s := by
  funext w
  simp only [owning, stateful]
  cases m s w <;> rfl

theorem owning_bind {α β : Type} (m : Effect (W × S) α) (k : α → Effect (W × S) β) (s : S) :
    (m >>= k).owning s = m.owning s >>= fun r => (k r.1).owning r.2 := by
  funext w
  rw [bind_apply]
  simp only [owning, bind_apply]
  cases m (w, s) <;> rfl

theorem within_bind {α β : Type} (m : Effect W α) (k : α → Effect W β) :
    (m >>= k).within S = m.within S >>= fun a => (k a).within S := by
  funext ws
  rw [bind_apply]
  simp only [within, bind_apply]
  cases m ws.1 <;> rfl

theorem owning_within {α : Type} (m : Effect W α) (s : S) :
    (m.within S).owning s = (do let a ← m; pure (a, s)) := by
  funext w
  rw [bind_apply]
  simp only [owning, within]
  cases m w <;> rfl

end Effect

end Stepwise
