import Stepwise.Poll
import Stepwise.Statement

/-!
# Computations whose failure is logged

`Watched F M` polls an inner computation and passes its answers on. When it fails, the failure is
logged with the text of a statement and a message, which is composed from the private state `M`
at that moment. The outcome stays what it is. Once resolved, a watched computation refuses every
further poll.
-/

namespace Stepwise
set_option autoImplicit false

/-- A computation with what is logged when it fails. -/
inductive Watched (F M : Type)
  | active (inner : F) (message : M) (sql : String)
  | finished

namespace Watched

variable {W F M β : Type}

def poll [Logging W] (inner : Poller W F β) (message : M → Effect W String) :
    Poller W (Watched F M) β
  | .finished => pure (.panicked .mapFinished, .finished)
  | .active x m sql => do
    let (answer, x) ← inner x
    match answer with
    | .pending => pure (.pending, .active x m sql)
    | .panicked c => pure (.panicked c, .active x m sql)
    | .ready (.ok v) => pure (.ready (.ok v), .finished)
    | .ready (.error e) => do
      Statement.logFailure (some e) (message m) sql
      pure (.ready (.error e), .finished)

end Watched

end Stepwise
