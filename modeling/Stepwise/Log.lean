import Stepwise.Effect

/-!
# Log records

A world may have a log: a maximum level, which everyone may change, and a place where records go.

* `Logging W` is that ability of a world. A world with a second part logs through its first part.
* `report` writes one record. Its text is an effect, which runs only when the level lets the record
  through, before the record is written.
-/

namespace Stepwise
set_option autoImplicit false

/-- How much is logged; also the severity of a record, which is never `off`. -/
inductive Level
  | off
  | error
  | warn
  | info
  | debug
  | trace
deriving DecidableEq

namespace Level

def rank : Level → Nat
  | .off => 0
  | .error => 1
  | .warn => 2
  | .info => 3
  | .debug => 4
  | .trace => 5

/-- Records of this severity pass the maximum level. -/
def admits (maximum severity : Level) : Bool := decide (severity.rank ≤ maximum.rank)

def name : Level → String
  | .off => "OFF"
  | .error => "ERROR"
  | .warn => "WARN"
  | .info => "INFO"
  | .debug => "DEBUG"
  | .trace => "TRACE"

end Level

structure Record where
  level : Level
  target : String
  text : String
deriving DecidableEq

/-- The worlds that have a log. -/
class Logging (W : Type) where
  level : W → Level
  setLevel : Level → W → W
  /-- Append a record, whatever the level. -/
  write : Record → W → W

/-- A second part of the world leaves the log as it is. -/
instance {W S : Type} [Logging W] : Logging (W × S) where
  level ws := Logging.level ws.1
  setLevel level ws := (Logging.setLevel level ws.1, ws.2)
  write record ws := (Logging.write record ws.1, ws.2)

/-- Write a record if the level lets it through. -/
def report {W : Type} [Logging W] (severity : Level) (target : String) (text : Effect W String) :
    Effect W Unit := fun w =>
  if (Logging.level w).admits severity then
    match text w with
    | .returned text w => .returned () (Logging.write ⟨severity, target, text⟩ w)
    | .broken reason w => .broken reason w
    | .cut w => .cut w
  else .returned () w

theorem report_of_not_admits {W : Type} [Logging W] {severity : Level} {w : W}
    (target : String) (text : Effect W String)
    (h : (Logging.level w).admits severity = false) :
    report severity target text w = .returned () w := by
  simp [report, h]

end Stepwise
