import Stepwise.Watched
import Stepwise.Proofs.Ensures

/-! # Watching

A failure is logged in the first part of the world. What is known of the second part changes with the message
that is composed and with nothing else.

* `report_beside` and `Statement.logFailure_beside` say so of one record and of the records of a failure.
* `Watches F M n`: a computation that is watched `n` times, from the inside out with messages of its own each
  time.
-/

namespace Stepwise
set_option autoImplicit false

variable {W S F M β : Type}

/-- The failure with which a computation has resolved. -/
def Poll.failure? {β : Type} : Poll β → Option Failure
  | .ready (.error e) => some e
  | _ => none

/-! ## Logging beside a second part of the world -/

section Logs

variable [Logging W] {I Q : S → Prop}

theorem report_beside {text : Effect (W × S) String} (severity : Level) (target : String) {ws : W × S}
    (h : Q ws.2) (htext : (text ws).Ensures (fun ws => I ws.2) fun _ ws => Q ws.2) :
    (report severity target text ws).Ensures (fun ws => I ws.2) fun _ ws => Q ws.2 := by
  rw [report]
  split
  · cases hm : text ws with
    | returned m ws' => rw [hm] at htext; exact htext
    | broken reason ws' => rw [hm] at htext; exact htext
    | cut ws' => rw [hm] at htext; exact htext
  · exact h

theorem Statement.logFailure_beside {message : Effect (W × S) String}
    (hmessage : ∀ ws, Q ws.2 → (message ws).Ensures (fun ws => I ws.2) fun _ ws => Q ws.2) (e : Failure)
    (sql : String) {ws : W × S} (h : Q ws.2) :
    (Statement.logFailure (some e) message sql ws).Ensures (fun ws => I ws.2) fun _ ws => Q ws.2 := by
  have htext : ((pure ("Failed to execute statement:\n" ++ Statement.display sql) :
      Effect (W × S) String) ws).Ensures (fun ws => I ws.2) fun _ ws => Q ws.2 := h
  refine (report_beside .error Statement.target h htext).bind fun _ ws h => ?_
  refine report_beside .error Statement.target h ?_
  exact (hmessage ws h).bind fun _ _ h => h

end Logs

/-! ## Watched again and again -/

/-- Computations that are watched so many times. -/
def Watches (F M : Type) : Nat → Type
  | 0 => F
  | n + 1 => Watched (Watches F M n) M

namespace Watches

/-- The watched computation, with one message and one statement for each time. -/
def wrap (x : F) : (labels : List (M × String)) → Watches F M labels.length
  | [] => x
  | (m, sql) :: labels => Watched.active (wrap x labels) m sql

def poll [Logging W] (inner : Poller W F β) (message : M → Effect W String) : (n : Nat) →
    Poller W (Watches F M n) β
  | 0 => inner
  | n + 1 => Watched.poll (poll inner message n) message

/-- What is asked of the innermost computation of one that has not resolved. -/
def Inner (K : F → Prop) : (n : Nat) → Watches F M n → Prop
  | 0, x => K x
  | n + 1, w =>
    match w with
    | .active x _ _ => Inner K n x
    | .finished => False

theorem inner_wrap {K : F → Prop} {x : F} (h : K x) (labels : List (M × String)) :
    Inner K labels.length (wrap x labels) := by
  induction labels with
  | nil => exact h
  | cons label labels ih => exact ih

end Watches

end Stepwise
