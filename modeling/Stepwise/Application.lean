import Stepwise.Loop

/-!
# Applying a step to the elements of a list

The common cases of no element and of one element do without a loop.

* With one element the step is requested when the application is made; it is then all that is
  polled (`single`), and once it has resolved nothing is left (`spent`).
* With more elements the application is the loop over the list.
-/

namespace Stepwise
set_option autoImplicit false

/-- A step applied to the elements of a list, with the loop `L` for more than one. -/
inductive Application (F L : Type)
  | none
  | single (step : F)
  | spent
  | several (loop : L)

namespace Application

variable {W α G F C β : Type}

/-- Apply a step to the elements of a list. -/
def ofList (request : G → α → Effect W (F × G)) (elements : List α) (consumer : G) :
    Effect W (Application F (Loop (Walk (Lookahead (List α) α) Unit G) F)) :=
  match elements with
  | [] => pure .none
  | [x] => do
    let (step, _) ← request consumer x
    pure (.single step)
  | elements => do
    let loop ← Loop.ofSource Next.ofList elements () consumer
    pure (.several loop)

def poll (find : C → Effect W (Found F × C)) (step : Poller W F β) (fuel : Nat) :
    Poller W (Application F (Loop C F)) Unit
  | .none => pure (.ready (.ok ()), .none)
  | .spent => pure (.panicked .chainFinished, .spent)
  | .single x => do
    let (answer, x) ← step x
    match answer with
    | .pending => pure (.pending, .single x)
    | .ready (.ok _) => pure (.ready (.ok ()), .spent)
    | .ready (.error e) => pure (.ready (.error e), .spent)
    | .panicked c => pure (.panicked c, .single x)
  | .several loop => do
    let (answer, loop) ← loop.poll find step fuel
    pure (answer, .several loop)

end Application

end Stepwise
