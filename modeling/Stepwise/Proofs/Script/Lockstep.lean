import Stepwise.Proofs.Job.Paired
import Stepwise.Proofs.Script.Owners

/-! # What a script sees of its world

The expressions of a script read the registers, and a failure is logged if the level admits it. Beside
its steps a script changes its world in two ways: it leaves an event, and it sets a register.

* `World.LockstepOn names R`: two worlds in `R` look the same to a script that is confined to the registers
  `names`, and they stay in `R` when it does the same in both. `World.Lockstep R` says so of every script.
* `Alike R m`: in two such worlds `m` comes to the same result and leaves such worlds. This is so for
  the calls of a source (`Supply.alike_next`) and of a filter (`alike_callFilter`), for what is done when
  a loop is made (`Shape.alike_plan`) and for the log of a failure (`alike_logFailure`).
-/

namespace Stepwise.Script
set_option autoImplicit false

/-- The event has no number of a step. -/
def Event.isPlain : Event → Bool
  | .step _ _ | .poll _ => false
  | _ => true

/-- A script that is confined to these registers cannot tell the two worlds apart. -/
structure World.LockstepOn (names : String → Prop) (R : World → World → Prop) : Prop where
  registers : ∀ {w v}, R w v → w.registers.Agree names v.registers
  level : ∀ {w v}, R w v → w.level = v.level
  event : ∀ {w v e}, Event.isPlain e = true → R w v →
    R { w with events := e :: w.events } { v with events := e :: v.events }
  assign : ∀ {w v name} (value : Value), names name → R w v →
    R { w with registers := w.registers.set name value } { v with registers := v.registers.set name value }

/-- A script cannot tell the two worlds apart. -/
structure World.Lockstep (R : World → World → Prop) : Prop where
  registers : ∀ {w v}, R w v → w.registers = v.registers
  level : ∀ {w v}, R w v → w.level = v.level
  event : ∀ {w v} (e : Event), R w v →
    R { w with events := e :: w.events } { v with events := e :: v.events }
  assign : ∀ {w v} (registers : Registers), R w v → R { w with registers } { v with registers }

theorem World.Lockstep.on {R : World → World → Prop} (hR : World.Lockstep R) {names : String → Prop} :
    World.LockstepOn names R where
  registers h _ _ := by rw [hR.registers h]
  level h := hR.level h
  event _ h := hR.event _ h
  assign value _ h := by
    rw [hR.registers h]
    exact hR.assign _ h

/-- In both worlds the computation does the same. -/
def Alike {A : Type} (R : Nat → World → World → Prop) (m : Effect World A) : Prop :=
  Effect.Paired R (Same R) m m

/-- The filter, if there is one, is confined to these registers. -/
def FilterConfined (names : String → Prop) (filter : Option (Closure Rule)) : Prop :=
  ∀ c ∈ filter, c.body.Confined names

section Confined

variable {R : Nat → World → World → Prop} {names : String → Prop} (hR : World.LockstepOn names (R 0))
include hR

/-! ## Registers and events -/

theorem confined_note {event : Event} (hplain : event.isPlain = true) : Alike R (World.note event) :=
  Effect.Paired.changes fun _ _ h => hR.event hplain h

theorem confined_evaluate (scope : Scope) {e : Expr} (he : e.Confined names) : Alike R (evaluate scope e) :=
  Effect.Paired.reads fun _ _ h => Expr.eval_agree (hR.registers h) scope he

theorem confined_failure (scope : Scope) {x : FailureExpr} (hx : x.Confined names) :
    Alike R (Effect.reads fun w => x.eval w.registers scope) :=
  Effect.Paired.reads fun _ _ h => FailureExpr.eval_agree (hR.registers h) scope hx

theorem confined_setRegister {name : String} (hname : names name) (v : Value) :
    Alike R (World.setRegister name v) :=
  Effect.Paired.changes fun _ _ h => hR.assign v hname h

/-! ## The log of failures -/

theorem confined_report (severity : Level) (target : String) {text : Effect World String}
    (htext : Alike R text) : Alike R (report severity target text) := by
  intro w v h
  have hlevel : Logging.level w = Logging.level v := hR.level h
  have ht := htext w v h
  rw [report, report, hlevel]
  by_cases hadmits : (Logging.level v).admits severity = true
  · rw [if_pos hadmits, if_pos hadmits]
    cases hw : text w with
    | returned t w' =>
      rw [hw] at ht
      obtain ⟨t', v', hv, rfl, h'⟩ := ht.exists_right
      rw [hv]
      exact ⟨rfl, hR.event rfl h'⟩
    | broken reason w' =>
      rw [hw] at ht
      obtain ⟨v', hv, h'⟩ := ht.broken_right
      rw [hv]
      exact ⟨rfl, h'⟩
    | cut w' =>
      rw [hw] at ht
      cases hv : text v <;> rw [hv] at ht <;> exact ht
  · rw [if_neg hadmits, if_neg hadmits]
    exact ⟨rfl, h⟩

theorem confined_compose {message : Closure Expr} (hmessage : message.body.Confined names) :
    Alike R (compose message) :=
  (confined_note hR rfl).bind_same fun _ => (confined_evaluate hR _ hmessage).bind_same fun _ =>
    Effect.Paired.pure_same _

theorem confined_logFailure (failure : Option Failure) {message : Closure Expr}
    (hmessage : message.body.Confined names) (sql : String) :
    Alike R (Statement.logFailure failure (compose message) sql) := by
  cases failure with
  | none => exact Effect.Paired.pure_same ()
  | some e =>
    refine (confined_report hR _ _ (Effect.Paired.pure_same _)).bind_same fun _ => confined_report hR _ _ ?_
    exact (confined_compose hR hmessage).bind_same fun _ => Effect.Paired.pure_same _

/-! ## Sources, filters and plans -/

theorem Supply.confined_next (source : Supply) : Alike R (Supply.next source) := by
  have hgive : ∀ entry rest, Alike R (Supply.give entry rest) :=
    fun entry rest => (confined_note hR rfl).bind_same fun _ => Effect.Paired.pure_same _
  cases source with
  | items rest => cases rest <;> exact hgive _ _
  | range current stop =>
    rw [Supply.next]
    split
    · exact hgive _ _
    · exact hgive _ _
  | upward current =>
    rw [Supply.next]
    split
    · exact fun w v h => ⟨rfl, h⟩
    · exact hgive _ _
  | replicate v count => cases count <;> exact hgive _ _

theorem Rule.confined_verdict (scope : Scope) {rule : Rule} (hrule : rule.Confined names) :
    Alike R (rule.verdict scope) := by
  induction rule with
  | set register e next ih =>
    refine (confined_evaluate hR scope hrule.2.1).bind_same fun v => ?_
    exact (confined_setRegister hR hrule.1 v).bind_same fun _ => ih hrule.2.2
  | branch condition yes no ihyes ihno =>
    refine (confined_evaluate hR scope hrule.1).bind_same fun c => ?_
    cases c.isTrue with
    | true => exact ihyes hrule.2.1
    | false => exact ihno hrule.2.2
  | ok e => exact (confined_evaluate hR scope hrule).bind_same fun _ => Effect.Paired.pure_same _
  | fail x =>
    refine Effect.Paired.reads fun w v h => congrArg Except.error ?_
    exact FailureExpr.eval_agree (hR.registers h) scope hrule

theorem confined_callFilter {filter : Option (Closure Rule)} (hfilter : FilterConfined names filter)
    (call : Call Value) :
    Effect.Paired R (Judged (FilterConfined names) R) (callFilter filter call) (callFilter filter call) := by
  cases filter with
  | none => exact Effect.Paired.pure fun w v h => ⟨rfl, hfilter, h⟩
  | some c =>
    have hbody := hfilter c rfl
    have hcalled : FilterConfined names (some c.called) := fun d hd => by
      cases hd
      exact hbody
    refine (confined_note hR rfl).bind_same fun _ => ?_
    refine (Rule.confined_verdict hR _ hbody).bind_same fun _ => ?_
    exact Effect.Paired.pure fun w v h => ⟨rfl, hcalled, h⟩

omit hR in
theorem Supply.alike_toList (source : Supply) : Alike R (Supply.toList source) := by
  cases source with
  | upward current => exact fun w v h => ⟨rfl, h⟩
  | _ => exact Effect.Paired.pure_same _

theorem Elements.confined_supply (scope : Scope) {elements : Elements} (h : elements.Confined names) :
    Alike R (elements.supply scope) := by
  refine Effect.Paired.reads fun w v hw => ?_
  have heval : ∀ e : Expr, e.Confined names → e.eval w.registers scope = e.eval v.registers scope :=
    fun e he => Expr.eval_agree (hR.registers hw) scope he
  cases elements with
  | items listed =>
    refine congrArg Supply.items (List.map_congr_left fun entry hentry => ?_)
    cases entry with
    | none => rfl
    | some e => exact congrArg some (heval e (h e hentry))
  | range start stop => simp only [heval start h.1, heval stop h.2]
  | upward start => simp only [heval start h]
  | replicate value count => simp only [heval value h.1, heval count h.2]

theorem Elements.confined_bounds (scope : Scope) {elements : Elements} (h : elements.Confined names) :
    Alike R (elements.bounds scope) := by
  refine Effect.Paired.reads fun w v hw => ?_
  cases elements with
  | range start stop =>
    simp only [Expr.eval_agree (hR.registers hw) scope h.1, Expr.eval_agree (hR.registers hw) scope h.2]
  | _ => rfl

theorem Shape.confined_plan (scope : Scope) {shape : Shape} (h : shape.elements.Confined names) :
    Alike R (shape.plan scope) := by
  refine (Elements.confined_supply hR scope h).bind_same fun supply =>
    (Elements.confined_bounds hR scope h).bind_same fun bounds => ?_
  cases shape.pattern with
  | list form => exact (Supply.alike_toList supply).bind_same fun _ => Effect.Paired.pure_same _
  | sumList => exact (Supply.alike_toList supply).bind_same fun _ => Effect.Paired.pure_same _
  | apply => exact (Supply.alike_toList supply).bind_same fun _ => Effect.Paired.pure_same _
  | _ => exact Effect.Paired.pure_same _

end Confined

section Alike

variable {R : Nat → World → World → Prop} (hR : World.Lockstep (R 0))
include hR

theorem alike_note (event : Event) : Alike R (World.note event) :=
  Effect.Paired.changes fun _ _ h => hR.event event h

theorem alike_reads {A : Type} (f : Registers → A) : Alike R (Effect.reads fun w => f w.registers) :=
  Effect.Paired.reads fun _ _ h => by rw [hR.registers h]

theorem alike_evaluate (scope : Scope) (e : Expr) : Alike R (evaluate scope e) :=
  confined_evaluate hR.on scope e.confined_all

theorem alike_setRegister (name : String) (v : Value) : Alike R (World.setRegister name v) :=
  confined_setRegister (hR.on : World.LockstepOn (fun _ => True) (R 0)) trivial v

theorem alike_logFailure (failure : Option Failure) (message : Closure Expr) (sql : String) :
    Alike R (Statement.logFailure failure (compose message) sql) :=
  confined_logFailure hR.on failure message.body.confined_all sql

theorem Supply.alike_next (source : Supply) : Alike R (Supply.next source) :=
  source.confined_next (hR.on : World.LockstepOn (fun _ => True) (R 0))

theorem alike_callFilter (filter : Option (Closure Rule)) (call : Call Value) :
    Alike R (callFilter filter call) :=
  (confined_callFilter hR.on (fun c _ => c.body.confined_all) call).imp fun h => ⟨h.1, h.2.2⟩

theorem Shape.alike_plan (scope : Scope) (shape : Shape) : Alike R (shape.plan scope) :=
  Shape.confined_plan hR.on scope shape.elements.confined_all

end Alike

end Stepwise.Script
