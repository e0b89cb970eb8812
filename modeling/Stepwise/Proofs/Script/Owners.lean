import Mathlib.Data.List.Basic
import Stepwise.Script.Session

/-! # What belongs to whom

The registers, the mailboxes and the meter of a session are dealt out to its loops. No loop shares them with
another one if every loop uses what is its own.

* `Owners` says to which loop each of them belongs.
* `Confined`: what an expression reads, what a rule or a program reads and sets, and the registers and the meter
  that a loop or an action of a session uses are among what is allowed. Which mailboxes a loop uses is only known
  when it runs.
* Registers that agree where an expression reads give it the same value (`Expr.eval_agree`); so it is with
  failures and with the elements of a loop.
-/

namespace Stepwise.Script
set_option autoImplicit false

/-- To which loop of a session the registers, the mailboxes and the meter belong. -/
structure Owners where
  register : String → Nat
  channel : Int64 → Nat
  meter : Nat

/-- The registers that belong to this loop. -/
def Owners.registers (o : Owners) (index : Nat) : String → Prop := fun name => o.register name = index

/-! ## What is read -/

section Names

variable (names : String → Prop)

/-- The expression reads no other registers. -/
def Expr.Confined : Expr → Prop
  | .literal _ | .var _ => True
  | .register name => names name
  | .binary _ a b => a.Confined ∧ b.Confined
  | .not a | .length a => a.Confined
  | .cond c yes no => c.Confined ∧ yes.Confined ∧ no.Confined

def CauseExpr.Confined : CauseExpr → Prop
  | .message text => text.Confined names
  | .step number => number.Confined names
  | .formatting | .canceled => True

def FailureExpr.Confined (x : FailureExpr) : Prop :=
  x.cause.Confined names ∧ ∀ text ∈ x.contexts, text.Confined names

def Elements.Confined : Elements → Prop
  | .items listed => ∀ e, some e ∈ listed → e.Confined names
  | .range start stop => start.Confined names ∧ stop.Confined names
  | .upward start => start.Confined names
  | .replicate value count => value.Confined names ∧ count.Confined names

/-- The rule reads and sets no other registers. -/
def Rule.Confined : Rule → Prop
  | .set register value next => names register ∧ value.Confined names ∧ next.Confined
  | .branch condition yes no => condition.Confined names ∧ yes.Confined ∧ no.Confined
  | .ok value => value.Confined names
  | .fail failure => failure.Confined names

def Watch.Confined (watch : Watch) : Prop := watch.message.Confined names ∧ watch.sql.Confined names

def Shape.Confined (shape : Shape) : Prop :=
  shape.elements.Confined names ∧ (∀ rule ∈ shape.filter, rule.Confined names) ∧
    ∀ watch ∈ shape.watch, watch.Confined names

end Names

theorem Expr.confined_all (e : Expr) : e.Confined fun _ => True := by
  induction e with
  | literal v => trivial
  | var name => trivial
  | register name => trivial
  | binary op a b iha ihb => exact ⟨iha, ihb⟩
  | not a iha => exact iha
  | length a iha => exact iha
  | cond c yes no ihc ihyes ihno => exact ⟨ihc, ihyes, ihno⟩

theorem FailureExpr.confined_all (x : FailureExpr) : x.Confined fun _ => True := by
  refine ⟨?_, fun text _ => text.confined_all⟩
  cases x.cause with
  | message text => exact text.confined_all
  | step number => exact number.confined_all
  | formatting => trivial
  | canceled => trivial

theorem Elements.confined_all (elements : Elements) : elements.Confined fun _ => True := by
  cases elements with
  | items listed => exact fun e _ => e.confined_all
  | range start stop => exact ⟨start.confined_all, stop.confined_all⟩
  | upward start => exact start.confined_all
  | replicate value count => exact ⟨value.confined_all, count.confined_all⟩

theorem Rule.confined_all (rule : Rule) : rule.Confined fun _ => True := by
  induction rule with
  | set register value next ih => exact ⟨trivial, value.confined_all, ih⟩
  | branch condition yes no ihyes ihno => exact ⟨condition.confined_all, ihyes, ihno⟩
  | ok value => exact value.confined_all
  | fail failure => exact failure.confined_all

/-! ## What a loop uses -/

/-- The program uses no other registers and no other meter. -/
def Program.Confined (o : Owners) (index : Nat) : Program → Prop
  | .set register value next =>
    o.register register = index ∧ value.Confined (o.registers index) ∧ next.Confined o index
  | .branch condition yes no =>
    condition.Confined (o.registers index) ∧ yes.Confined o index ∧ no.Confined o index
  | .ok value => value.Confined (o.registers index)
  | .fail failure => failure.Confined (o.registers index)
  | .suspend count next => count.Confined (o.registers index) ∧ next.Confined o index
  | .receive channel => channel.Confined (o.registers index)
  | .loop shape step => shape.Confined (o.registers index) ∧ step.Confined o index
  | .meter value => o.meter = index ∧ value.Confined (o.registers index)
  | .meterFail number => o.meter = index ∧ number.Confined (o.registers index)

def Spec.Confined (o : Owners) (index : Nat) (spec : Spec) : Prop :=
  spec.shape.Confined (o.registers index) ∧ spec.step.Confined o index

namespace Session.Action

/-- The loop that an action is about. A message is about the loop whose mailbox it is put into. -/
def owner (o : Owners) : Action → Nat
  | .create index | .poll index | .finish index _ | .isOver index | .drop index => index
  | .send channel _ | .fail channel _ => o.channel channel

/-- A message is computed from what belongs to the loop that gets it. -/
def Confined (o : Owners) : Action → Prop
  | .send channel value => value.Confined (o.registers (o.channel channel))
  | .fail channel failure => failure.Confined (o.registers (o.channel channel))
  | _ => True

end Session.Action

/-! ## Registers that agree -/

/-- The registers have the same values under these names. -/
def Registers.Agree (names : String → Prop) (r r' : Registers) : Prop :=
  ∀ name, names name → r.value name = r'.value name

theorem Registers.Agree.set {names : String → Prop} {r r' : Registers} (h : r.Agree names r') (name : String)
    (v : Value) : (r.set name v).Agree names (r'.set name v) := by
  intro other hother
  rw [value_set, value_set, h other hother]

section Agree

variable {names : String → Prop} {r r' : Registers} (h : r.Agree names r') (scope : Scope)
include h

theorem Expr.eval_agree {e : Expr} (he : e.Confined names) : e.eval r scope = e.eval r' scope := by
  induction e with
  | literal v => rfl
  | var name => rfl
  | register name => exact h name he
  | binary op a b iha ihb => rw [eval, eval, iha he.1, ihb he.2]
  | not a iha => rw [eval, eval, iha he]
  | length a iha => rw [eval, eval, iha he]
  | cond c yes no ihc ihyes ihno => rw [eval, eval, ihc he.1, ihyes he.2.1, ihno he.2.2]

theorem CauseExpr.eval_agree {x : CauseExpr} (hx : x.Confined names) : x.eval r scope = x.eval r' scope := by
  cases x with
  | message text => rw [eval, eval, Expr.eval_agree h scope hx]
  | step number => rw [eval, eval, Expr.eval_agree h scope hx]
  | formatting => rfl
  | canceled => rfl

theorem FailureExpr.eval_agree {x : FailureExpr} (hx : x.Confined names) : x.eval r scope = x.eval r' scope := by
  obtain ⟨hcause, hcontexts⟩ := hx
  rw [eval, eval, CauseExpr.eval_agree h scope hcause]
  refine List.foldl_ext _ _ _ fun e text htext => ?_
  rw [Expr.eval_agree h scope (hcontexts text htext)]

end Agree

end Stepwise.Script
