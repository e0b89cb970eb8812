import Stepwise.Proofs.Script.Shared

/-! # Independent loops

The loops of a session are made, polled and dropped in any order. If none of them uses a register, a mailbox or the
meter of another one, then what a session reports on each of them is what it reports when only the actions that are
about this loop are carried out, but for the numbers of the steps, which are counted for all loops together.

* `ownActions` and `ownReports` are what a session does with one of its loops and what it reports on it.
* `Family`: each loop is the same in the shared session and in one of its own. An action on one of them changes one
  of these sessions (`Family.update`), and so it goes on to be for a whole run (`steps_projected`).
* `numbering`: the numbers of a loop in the shared session, in the order in which it counts them on its own.
* `Undisturbed` is the whole statement, for the reports and for runs that do not come to an end.
-/

namespace Stepwise.Script
set_option autoImplicit false

namespace Session

/-! ## One loop of many -/

/-- The actions that are about this loop. -/
def ownActions (o : Owners) (index : Nat) (actions : List Action) : List Action :=
  actions.filter fun action => action.owner o == index

/-- The reports on the actions that are about this loop. -/
def ownReports (o : Owners) (index : Nat) (actions : List Action) (reports : List Step) : List Step :=
  ((actions.zip reports).filter fun p => p.1.owner o == index).map Prod.snd

section Runs

variable {o : Owners} {fuel : Nat}

theorem ownActions_of_eq {index : Nat} {action : Action} (h : action.owner o = index) (rest : List Action) :
    ownActions o index (action :: rest) = action :: ownActions o index rest := by
  rw [ownActions, List.filter_cons_of_pos (by rw [h, beq_self_eq_true])]
  rfl

theorem ownActions_of_ne {index : Nat} {action : Action} (h : action.owner o ≠ index) (rest : List Action) :
    ownActions o index (action :: rest) = ownActions o index rest := by
  rw [ownActions, List.filter_cons_of_neg (by rw [beq_iff_eq]; exact h)]
  rfl

theorem ownReports_of_eq {index : Nat} {action : Action} (h : action.owner o = index) (rest : List Action)
    (report : Step) (reports : List Step) :
    ownReports o index (action :: rest) (report :: reports) = report :: ownReports o index rest reports := by
  rw [ownReports, List.zip_cons_cons, List.filter_cons_of_pos (by rw [h, beq_self_eq_true])]
  rfl

theorem ownReports_of_ne {index : Nat} {action : Action} (h : action.owner o ≠ index) (rest : List Action)
    (report : Step) (reports : List Step) :
    ownReports o index (action :: rest) (report :: reports) = ownReports o index rest reports := by
  rw [ownReports, List.zip_cons_cons, List.filter_cons_of_neg (by rw [beq_iff_eq]; exact h)]
  rfl

/-- Each loop is the same in the shared session and in the session of its own. -/
def Family (o : Owners) (ids : Nat → List Nat) (s : Session) (alone : Nat → Session) : Prop :=
  ∀ index, Agrees o index (ids index) s (alone index)

/-- What is done with one loop leaves all others as they are. -/
theorem Family.update {ids : Nat → List Nat} {s₀ : Session} {alone : Nat → Session} (h : Family o ids s₀ alone)
    {index : Nat} {ids' : List Nat} {s s' : Session} (htracked : Tracked o index (ids index) s₀ ids' s s') :
    Family o (Function.update ids index ids') s (Function.update alone index s') := by
  intro other
  by_cases hother : other = index
  · subst hother
    rw [Function.update_self, Function.update_self]
    exact htracked.agrees
  · rw [Function.update_of_ne hother, Function.update_of_ne hother]
    exact (h other).of_spares hother htracked.spares

theorem family_start (o : Owners) (specs : List Spec) (flavor : Flavor) :
    Family o (fun _ => []) (start specs flavor) fun _ => start specs flavor := by
  intro index
  have htask : (specs.map fun _ => (none : Option Task))[index]?.join = none := by
    rw [List.getElem?_map]
    cases specs[index]? <;> rfl
  refine ⟨⟨fun _ _ => rfl, fun _ _ => rfl, fun _ _ => rfl, fun _ => rfl, rfl, rfl, rfl, .nil, nofun⟩, rfl, rfl, ?_⟩
  rw [start, htask]
  exact .none

/-- What the run of a shared session says of the runs of its loops on their own. -/
def Projected (o : Owners) (fuel : Nat) (actions : List Action) (ids : Nat → List Nat) (alone : Nat → Session) :
    Ending Session (List Step) → Prop
  | .returned reports s => ∃ ids' alone', Family o ids' s alone' ∧ ∀ index, ids index <+: ids' index ∧
      ∃ own, steps fuel (ownActions o index actions) (alone index) = .returned own (alone' index) ∧
        List.Forall₂ (Step.Renumbered (ids' index)) (ownReports o index actions reports) own
  | .broken reason _ =>
    ∃ index s, steps fuel (ownActions o index actions) (alone index) = .broken reason s
  | .cut _ => ∃ index s, steps fuel (ownActions o index actions) (alone index) = .cut s

theorem steps_of_returned {action : Action} {report : Step} {s s' : Session}
    (h : step fuel action s = .returned report s') (rest : List Action) :
    steps fuel (action :: rest) s = (steps fuel rest s').map (report :: ·) := by
  rw [steps, Effect.bind_of_returned _ h, Effect.bind_apply]
  cases steps fuel rest s' <;> rfl

/-- The run of a loop on its own goes on from where an action has brought the family. -/
theorem alone_cons {alone : Nat → Session} {action : Action} {report : Step} {s : Session}
    (h : step fuel action (alone (action.owner o)) = .returned report s) (rest : List Action) (index : Nat) :
    steps fuel (ownActions o index (action :: rest)) (alone index) =
      (steps fuel (ownActions o index rest) (Function.update alone (action.owner o) s index)).map
        fun own => if action.owner o = index then report :: own else own := by
  by_cases howner : action.owner o = index
  · subst howner
    rw [ownActions_of_eq rfl, steps_of_returned h, Function.update_self]
    simp only [if_true]
  · rw [ownActions_of_ne howner, Function.update_of_ne (Ne.symm howner)]
    simp only [if_neg howner]
    cases steps fuel (ownActions o index rest) (alone index) <;> rfl

/-- A loop that strays in one action has strayed in the end. -/
theorem strayed_of_step {action : Action} {s : Session}
    (h : (step fuel action s).world.Strayed o (action.owner o)) (rest : List Action) :
    (steps fuel (ownActions o (action.owner o) (action :: rest)) s).world.Strayed o (action.owner o) := by
  have hlasting : ∀ report : Step, Effect.Keeps (Lasting (Strayed o (action.owner o)))
      (steps fuel (ownActions o (action.owner o) rest) >>= fun reports => pure (report :: reports)) :=
    fun report => lasting_of_uses ((keeps_steps fuel _).bind fun _ => Effect.Keeps.pure _)
  rw [ownActions_of_eq rfl]
  exact Effect.Keeps.after hlasting s h

/-- What is said of a run after an action is said of the run with the action. -/
theorem Projected.cons {action : Action} {rest : List Action} {ids : Nat → List Nat} {alone : Nat → Session}
    {ids₁ : List Nat} {report report' : Step} {s' : Session} (hgrown : ids (action.owner o) <+: ids₁)
    (hstep : step fuel action (alone (action.owner o)) = .returned report' s')
    (hreport : report.Renumbered ids₁ report') {e : Ending Session (List Step)}
    (h : Projected o fuel rest (Function.update ids (action.owner o) ids₁)
      (Function.update alone (action.owner o) s') e) :
    Projected o fuel (action :: rest) ids alone (e.map (report :: ·)) := by
  cases e with
  | broken reason s =>
    obtain ⟨index, t, ht⟩ := h
    exact ⟨index, t, by rw [alone_cons hstep rest index, ht]; rfl⟩
  | cut s =>
    obtain ⟨index, t, ht⟩ := h
    exact ⟨index, t, by rw [alone_cons hstep rest index, ht]; rfl⟩
  | returned reports s =>
    obtain ⟨ids', alone', hfamily, hruns⟩ := h
    refine ⟨ids', alone', hfamily, fun index => ?_⟩
    obtain ⟨hlater, own, hown, hreports⟩ := hruns index
    rw [alone_cons hstep rest, hown]
    by_cases howner : action.owner o = index
    · subst howner
      rw [Function.update_self] at hlater
      rw [ownReports_of_eq rfl]
      exact ⟨hgrown.trans hlater, report' :: own, by simp only [if_true]; rfl, .cons (hreport.mono hlater) hreports⟩
    · rw [Function.update_of_ne (Ne.symm howner)] at hlater
      rw [ownReports_of_ne howner]
      exact ⟨hlater, own, by simp only [if_neg howner]; rfl, hreports⟩

/-- A run of the shared session is made of the runs of its loops on their own. -/
theorem steps_projected {actions : List Action} (hactions : ∀ action ∈ actions, action.Confined o)
    {ids : Nat → List Nat} {s : Session} {alone : Nat → Session}
    (hspecs : ∀ index (spec : Spec), s.specs[index]? = some spec → spec.Confined o index)
    (h : Family o ids s alone)
    (hfair : ∀ index, ¬(steps fuel (ownActions o index actions) (alone index)).world.Strayed o index) :
    Projected o fuel actions ids alone (steps fuel actions s) := by
  induction actions generalizing ids s alone with
  | nil => exact ⟨ids, alone, h, fun index => ⟨List.prefix_refl _, [], rfl, .nil⟩⟩
  | cons action rest ih =>
    have haction := hactions action List.mem_cons_self
    have hrest : ∀ action ∈ rest, action.Confined o := fun a ha => hactions a (List.mem_cons_of_mem _ ha)
    obtain hlost | hpair := step_tracked (h (action.owner o)) (hspecs _) haction fuel
    · exact absurd (strayed_of_step hlost rest) (hfair (action.owner o))
    have hown : ownActions o (action.owner o) (action :: rest) = action :: ownActions o (action.owner o) rest :=
      ownActions_of_eq rfl rest
    cases hs : step fuel action s with
    | broken reason s₁ =>
      rw [hs] at hpair
      obtain ⟨v, hv, -⟩ := hpair.broken_right
      rw [steps, Effect.bind_of_broken _ hs]
      exact ⟨action.owner o, v, by rw [hown, steps, Effect.bind_of_broken _ hv]⟩
    | cut s₁ =>
      rw [hs] at hpair
      rw [steps, Effect.bind_of_cut _ hs]
      cases hv : step fuel action (alone (action.owner o)) with
      | cut v => exact ⟨action.owner o, v, by rw [hown, steps, Effect.bind_of_cut _ hv]⟩
      | returned report v => rw [hv] at hpair; exact hpair.elim
      | broken reason v => rw [hv] at hpair; exact hpair.elim
    | returned report s₁ =>
      rw [hs] at hpair
      obtain ⟨report', v, hv, ids₁, htracked, hreport⟩ := hpair.exists_right
      have hspecs₁ : ∀ index (spec : Spec), s₁.specs[index]? = some spec → spec.Confined o index := by
        rw [htracked.spares.specs]
        exact hspecs
      have hfair₁ : ∀ index, ¬(steps fuel (ownActions o index rest)
          (Function.update alone (action.owner o) v index)).world.Strayed o index := by
        intro index hstrayed
        refine hfair index ?_
        rw [alone_cons hv rest index, Ending.world_map]
        exact hstrayed
      rw [steps_of_returned hs]
      exact (ih hrest hspecs₁ (h.update htracked) hfair₁).cons htracked.grown hv hreport

end Runs

end Session

/-! ## Numbers of steps -/

/-- The event with other numbers of the steps. -/
def Event.renumber (f : Nat → Nat) : Event → Event
  | .step id arguments => .step (f id) arguments
  | .poll id => .poll (f id)
  | e => e

/-- The report with other numbers of the steps. -/
def Session.Step.renumber (f : Nat → Nat) (report : Session.Step) : Session.Step :=
  { report with events := report.events.map (Event.renumber f) }

/-- The numbers in the shared session. Numbers that were not given yet come after all others. -/
def numbering (ids : List Nat) (bound k : Nat) : Nat := ids[k]?.getD (bound + k)

theorem numbering_strictMono {ids : List Nat} {bound : Nat} (hincreasing : ids.Pairwise (· < ·))
    (hbelow : ∀ id ∈ ids, id < bound) : StrictMono (numbering ids bound) := by
  intro j k hjk
  rw [numbering, numbering]
  by_cases hk : k < ids.length
  · have hj : j < ids.length := hjk.trans hk
    rw [List.getElem?_eq_getElem hj, List.getElem?_eq_getElem hk]
    exact List.pairwise_iff_getElem.1 hincreasing j k hj hk hjk
  · rw [List.getElem?_eq_none (Nat.le_of_not_lt hk), Option.getD_none]
    by_cases hj : j < ids.length
    · have hid := hbelow _ (List.getElem_mem hj)
      rw [List.getElem?_eq_getElem hj, Option.getD_some]
      omega
    · rw [List.getElem?_eq_none (Nat.le_of_not_lt hj), Option.getD_none]
      omega

theorem Event.Renumbered.eq_renumber {ids : List Nat} {e e' : Event} (h : e.Renumbered ids e') (bound : Nat) :
    e = e'.renumber (numbering ids bound) := by
  cases h with
  | step arguments h => rw [Event.renumber, numbering, h, Option.getD_some]
  | poll h => rw [Event.renumber, numbering, h, Option.getD_some]
  | plain h =>
    cases e with
    | step id arguments => cases h
    | poll id => cases h
    | _ => rfl

theorem Session.Step.Renumbered.eq_renumber {ids : List Nat} {r r' : Session.Step} (h : r.Renumbered ids r')
    (bound : Nat) : r = r'.renumber (numbering ids bound) := by
  obtain ⟨reply, woken, events⟩ := r
  obtain ⟨hreply, hwoken, hevents⟩ := h
  have heq : events = r'.events.map (Event.renumber (numbering ids bound)) :=
    List.forall₂_eq_eq_eq ▸ List.forall₂_map_right_iff.2 (hevents.imp fun _ _ he => he.eq_renumber bound)
  exact congr (congr (congrArg Session.Step.mk hreply) hwoken) heq

/-! ## The whole statement -/

namespace Session

/-- No loop of a session is disturbed by the other ones. `run` carries out actions in a new session.

If all actions come to an end, then so does each loop when only the actions that are about it are carried out, in
the same order, and its own replies, wake-ups and events are the same up to the numbers of the steps, which stay in
the same order. If an action breaks down or never comes to an end, then so does one of a loop on its own. -/
structure Undisturbed (o : Owners) (run : List Action → Ending Session (List Step)) (actions : List Action) :
    Prop where
  returned : ∀ {reports s}, run actions = .returned reports s → ∀ index, ∃ number : Nat → Nat, StrictMono number ∧
    ∃ own s', run (ownActions o index actions) = .returned own s' ∧
      ownReports o index actions reports = own.map (Step.renumber number)
  broken : ∀ {reason s}, run actions = .broken reason s →
    ∃ index s', run (ownActions o index actions) = .broken reason s'
  cut : ∀ {s}, run actions = .cut s → ∃ index s', run (ownActions o index actions) = .cut s'

/-- Loops that share no register and no meter, and that use no common mailbox on their own, do not interfere, in
whatever order they are made, polled and dropped and messages are sent to them. -/
theorem independent (o : Owners) (specs : List Spec)
    (hspecs : ∀ index (spec : Spec), specs[index]? = some spec → spec.Confined o index) (flavor : Flavor)
    (actions : List Action) (hactions : ∀ action ∈ actions, action.Confined o) (fuel : Nat)
    (hmailboxes : ∀ index, ∀ c ∈ (steps fuel (ownActions o index actions) (start specs flavor)).world.world.used,
      o.channel c = index) :
    Undisturbed o (fun actions => steps fuel actions (start specs flavor)) actions := by
  have hfair : ∀ index,
      ¬(steps fuel (ownActions o index actions) (start specs flavor)).world.Strayed o index :=
    fun index ⟨c, hc, hne⟩ => hne (hmailboxes index c hc)
  have hprojected := steps_projected hactions hspecs (family_start o specs flavor) hfair
  refine ⟨fun {reports s} h index => ?_, fun {reason s} h => ?_, fun {s} h => ?_⟩
  · rw [h] at hprojected
    obtain ⟨ids, alone, hfamily, hruns⟩ := hprojected
    obtain ⟨-, own, hown, hreports⟩ := hruns index
    have hworld := (hfamily index).world
    refine ⟨numbering (ids index) s.world.nextStep, numbering_strictMono hworld.increasing hworld.below, own, _,
      hown, ?_⟩
    exact List.forall₂_eq_eq_eq ▸ List.forall₂_map_right_iff.2 (hreports.imp fun _ _ hr => hr.eq_renumber _)
  · rw [h] at hprojected
    exact hprojected
  · rw [h] at hprojected
    exact hprojected

/-- A watched loop whose steps wait for one message each, and a sum over steps of the meter. -/
def pair : List Spec :=
  [{ shape :=
      { pattern := .list .each
        elements := .items [some (.literal (.int 1)), some (.literal (.int 2))]
        watch := some ⟨.register "a", .literal (.text "SELECT 1")⟩ }
     step := .set "a" (.var "v") (.suspend (.literal (.int 1)) (.receive (.var "v"))) },
   { shape := { pattern := .sumRange, elements := .range (.literal (.int 0)) (.literal (.int 3)) }
     step := .set "b" (.binary .add (.register "b") (.var "v")) (.meter (.register "b")) }]

def pairOwners : Owners where
  register name := if name = "b" then 1 else 0
  channel _ := 0
  meter := 1

def pairActions : List Action :=
  [.create 1, .create 0, .poll 0, .poll 1, .send 1 (.literal .unit), .poll 0, .finish 1 9,
    .fail 2 { cause := .message (.literal (.text "refused")) }, .create 1, .poll 0, .drop 1, .poll 0]

theorem pair_undisturbed :
    Undisturbed pairOwners (fun actions => steps 20 actions (start pair .yielding)) pairActions := by
  have hspecs : ∀ index (spec : Spec), pair[index]? = some spec → spec.Confined pairOwners index := by
    rintro (_ | _ | index) spec h
    · cases h
      simp [Spec.Confined, Shape.Confined, Elements.Confined, Watch.Confined, Program.Confined, Expr.Confined,
        Owners.registers, pairOwners]
    · cases h
      simp [Spec.Confined, Shape.Confined, Elements.Confined, Program.Confined, Expr.Confined, Owners.registers,
        pairOwners]
    · cases h
  have hactions : ∀ action ∈ pairActions, action.Confined pairOwners := by
    simp [pairActions, Action.Confined, Expr.Confined, FailureExpr.Confined, CauseExpr.Confined]
  refine independent pairOwners pair hspecs .yielding pairActions hactions 20 ?_
  rintro (_ | _ | index)
  · exact fun _ _ => rfl
  · -- The sum receives nothing.
    have hused : (steps 20 (ownActions pairOwners 1 pairActions) (start pair .yielding)).world.world.used = [] := by
      decide +kernel
    rw [hused]
    exact nofun
  · have hown : ownActions pairOwners (index + 2) pairActions = [] := rfl
    rw [hown]
    exact nofun

/-- On its own the sum counts its steps from zero on. -/
example :
    (match steps 20 pairActions (start pair .yielding) with
      | .returned reports _ =>
        ((ownReports pairOwners 1 pairActions reports).flatMap Step.events).filterMap fun
          | .step id _ => some id
          | _ => none
      | _ => []) = [1, 3, 4] := by decide +kernel

end Session

end Stepwise.Script
