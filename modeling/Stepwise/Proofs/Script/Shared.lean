import Stepwise.Proofs.Script.Renumbered

/-! # A loop in a session with others and in one of its own

The loops of a session are made, polled and dropped one by one. What is done with one of them is done in the shared
session and in a session where nothing is done with the others.

* `Session.Agrees`: the loop and what belongs to it are the same in both sessions, but for the numbers of its steps.
* `Session.Spares`: the other loops and what belongs to them are as they were. `Agrees.of_spares`: so it still agrees
  with its own session for each of the others.
* `Session.Tracked`: since some moment the loop has done the same in both sessions and spared all others. Making,
  polling and dropping it keep to that (`create_tracked`, `poll_tracked`, `finish_tracked`), and so do messages for
  it, unless it strays.
* `step_tracked`: from sessions that agree, an action gives the same report, but for the numbers of the steps.
* `Session.Uses`: no action takes a mailbox back that was used (`keeps_steps`).
-/

namespace Stepwise.Script
set_option autoImplicit false

namespace Session

/-! ## The mailboxes that a session uses -/

/-- The channels that were used before were used afterwards. -/
def Uses (s s' : Session) : Prop := s.world.used ⊆ s'.world.used

instance : Std.Refl Uses := ⟨fun s => List.Subset.refl s.world.used⟩

instance : Trans Uses Uses Uses := ⟨List.Subset.trans⟩

/-- The loop has used a mailbox that does not belong to it. -/
def Strayed (o : Owners) (index : Nat) (s : Session) : Prop := s.world.Strayed o index

theorem Uses.lasting {o : Owners} {index : Nat} {s s' : Session} (h : s.Uses s') :
    Lasting (Strayed o index) s s' := fun ⟨c, hc, hne⟩ => ⟨c, h hc, hne⟩

theorem lasting_of_uses {A : Type} {o : Owners} {index : Nat} {m : Effect Session A} (h : Effect.Keeps Uses m) :
    Effect.Keeps (Lasting (Strayed o index)) m := h.mono fun _ _ huses => huses.lasting

theorem keeps_onWorld {A : Type} {m : Effect World A} (h : Effect.Keeps World.Follows m) :
    Effect.Keeps Uses (onWorld m) := by
  intro s
  have hfollows := h s.world
  rw [onWorld]
  cases hm : m s.world <;> rw [hm] at hfollows <;> exact hfollows.used

theorem keeps_setTask (index : Nat) (t : Option Task) : Effect.Keeps Uses (setTask index t) :=
  fun s => List.Subset.refl s.world.used

theorem keeps_create (fuel index : Nat) : Effect.Keeps Uses (create fuel index) := by
  refine (Effect.Keeps.reads _).bind fun spec => ?_
  cases spec with
  | none => exact Effect.Keeps.pure ()
  | some spec =>
    have hlaunch := keeps_onWorld (keeps_launch (keeps_build fuel) fuel [] spec.shape spec.step)
    exact hlaunch.bind fun task => keeps_setTask index (some task)

/-- What is left of a loop after a poll. -/
def settle (index : Nat) : Except Breakdown (Poll Value × Task) → Effect Session Answer
  | .error reason => do
    setTask index none
    pure (.broken reason)
  | .ok (.panicked c, _) => do
    setTask index none
    pure (.polled (.panicked c))
  | .ok (answer, task) => do
    setTask index (some task)
    pure (.polled answer)

theorem keeps_settle (index : Nat) (r : Except Breakdown (Poll Value × Task)) :
    Effect.Keeps Uses (settle index r) := by
  obtain reason | ⟨answer, task⟩ := r
  · exact (keeps_setTask index none).bind fun _ => Effect.Keeps.pure _
  · cases answer with
    | panicked cause => exact (keeps_setTask index none).bind fun _ => Effect.Keeps.pure _
    | _ => exact (keeps_setTask index (some task)).bind fun _ => Effect.Keeps.pure _

theorem keeps_poll (fuel index : Nat) : Effect.Keeps Uses (poll fuel index) := by
  refine (Effect.Keeps.reads _).bind fun t => ?_
  cases t with
  | none => exact Effect.Keeps.pure _
  | some task =>
    have hnumber : Effect.Keeps Uses (onWorld (Effect.changes fun w => { w with poller := w.poller + 1 })) :=
      fun s => List.Subset.refl s.world.used
    exact hnumber.bind fun _ => (keeps_onWorld (Task.keeps_poll fuel task).attempt).bind (keeps_settle index)

theorem keeps_finish (fuel index more made : Nat) : Effect.Keeps Uses (finish fuel index more made) := by
  induction more generalizing made with
  | zero => exact (keeps_poll fuel index).bind fun _ => Effect.Keeps.pure _
  | succ more ih =>
    refine (keeps_poll fuel index).bind fun answer => ?_
    cases answer with
    | polled p =>
      cases p with
      | pending => exact ih (made + 1)
      | _ => exact Effect.Keeps.pure _
    | _ => exact Effect.Keeps.pure _

theorem keeps_perform (fuel : Nat) (action : Action) : Effect.Keeps Uses (perform fuel action) := by
  cases action with
  | create index =>
    exact (keeps_setTask index none).bind fun _ => (keeps_create fuel index).bind fun _ => Effect.Keeps.pure _
  | poll index => exact (keeps_poll fuel index).bind fun _ => Effect.Keeps.pure _
  | finish index limit => exact (keeps_finish fuel index _ 0).bind fun _ => Effect.Keeps.pure _
  | isOver index =>
    refine (Effect.Keeps.reads _).bind fun t => ?_
    cases t.bind Task.isOver? <;> exact Effect.Keeps.pure _
  | drop index => exact (keeps_setTask index none).bind fun _ => Effect.Keeps.pure _
  | send channel value =>
    refine (keeps_onWorld (keeps_evaluate [] value)).bind fun v => ?_
    exact (keeps_onWorld (World.keeps_deliver channel _)).bind fun _ => Effect.Keeps.pure _
  | fail channel failure =>
    refine (keeps_onWorld (Effect.Keeps.reads _)).bind fun e => ?_
    exact (keeps_onWorld (World.keeps_deliver channel _)).bind fun _ => Effect.Keeps.pure _

theorem keeps_steps (fuel : Nat) (actions : List Action) : Effect.Keeps Uses (steps fuel actions) := by
  have hcleared : Effect.Keeps Uses (onWorld (Effect.changes fun w => { w with events := [], woken := [] })) :=
    fun s => List.Subset.refl s.world.used
  induction actions with
  | nil => exact Effect.Keeps.pure _
  | cons action rest ih =>
    refine (hcleared.bind fun _ => (keeps_perform fuel action).bind fun _ => Effect.Keeps.reads _).bind fun _ => ?_
    exact ih.bind fun _ => Effect.Keeps.pure _

/-! ## The loops of two sessions -/

/-- The loop is the same in the shared session and in its own. -/
structure Agrees (o : Owners) (index : Nat) (ids : List Nat) (s s' : Session) : Prop where
  world : World.Agrees o index ids s.world s'.world
  specs : s.specs = s'.specs
  slots : s.tasks.length = s'.tasks.length
  task : Option.Rel (Task.Renumbered o index ids) s.tasks[index]?.join s'.tasks[index]?.join

/-- The other loops are as they were. -/
structure Spares (o : Owners) (index : Nat) (s₀ s : Session) : Prop where
  world : World.Spares o index s₀.world s.world
  specs : s.specs = s₀.specs
  slots : s.tasks.length = s₀.tasks.length
  others : ∀ other, other ≠ index → s.tasks[other]? = s₀.tasks[other]?

theorem Spares.refl (o : Owners) (index : Nat) (s : Session) : Spares o index s s where
  world := World.Spares.refl o index s.world
  specs := rfl
  slots := rfl
  others _ _ := rfl

/-- What is done with one loop does not disturb another one. -/
theorem Agrees.of_spares {o : Owners} {index other : Nat} (hne : index ≠ other) {ids : List Nat}
    {s₀ s s' : Session} (h : Agrees o index ids s₀ s') (hspares : Spares o other s₀ s) :
    Agrees o index ids s s' where
  world := h.world.of_spares hne hspares.world
  specs := hspares.specs.trans h.specs
  slots := hspares.slots.trans h.slots
  task := by
    rw [hspares.others index hne]
    exact h.task

/-- Since the numbers were `first` and the shared session was `s₀`, the loop has done the same in both sessions. -/
structure Tracked (o : Owners) (index : Nat) (first : List Nat) (s₀ : Session) (ids : List Nat)
    (s s' : Session) : Prop where
  grown : first <+: ids
  agrees : Agrees o index ids s s'
  events : List.Forall₂ (Event.Renumbered ids) s.world.events s'.world.events
  woken : s.world.woken.length = s'.world.woken.length
  spares : Spares o index s₀ s

namespace Tracked

variable {o : Owners} {index : Nat} {first ids ids' : List Nat} {s₀ s s' : Session}

theorem world (h : Tracked o index first s₀ ids s s') :
    World.Tracked o index first s₀.world ids s.world s'.world :=
  ⟨h.grown, h.agrees.world, h.events, h.woken, h.spares.world⟩

/-- The worlds have gone on. -/
theorem setWorld (h : Tracked o index first s₀ ids s s') {w w' : World}
    (hw : World.Tracked o index ids s.world ids' w w') :
    Tracked o index first s₀ ids' { s with world := w } { s' with world := w' } := by
  have hworld := h.world.rebase hw
  refine ⟨hworld.grown, { h.agrees with world := hworld.agrees, task := ?_ }, hworld.events, hworld.woken,
    { h.spares with world := hworld.spares }⟩
  have hmono : ∀ {t t'}, Option.Rel (Task.Renumbered o index ids) t t' →
      Option.Rel (Task.Renumbered o index ids') t t' := by
    rintro t t' (htask | -)
    · exact .some (htask.mono hw.grown)
    · exact .none
  exact hmono h.agrees.task

theorem setTask (h : Tracked o index first s₀ ids s s') {t t' : Option Task}
    (ht : Option.Rel (Task.Renumbered o index ids) t t') :
    Tracked o index first s₀ ids { s with tasks := s.tasks.set index t }
      { s' with tasks := s'.tasks.set index t' } := by
  have hslots : (s.tasks.set index t).length = (s'.tasks.set index t').length := by
    rw [List.length_set, List.length_set, h.agrees.slots]
  refine ⟨h.grown, { h.agrees with slots := hslots, task := ?_ }, h.events, h.woken,
    { h.spares with slots := by rw [List.length_set, h.spares.slots], others := fun other hother => ?_ }⟩
  · change Option.Rel _ (s.tasks.set index t)[index]?.join (s'.tasks.set index t')[index]?.join
    rw [List.getElem?_set_self', List.getElem?_set_self']
    by_cases hindex : index < s.tasks.length
    · have hindex' : index < s'.tasks.length := h.agrees.slots ▸ hindex
      rw [List.getElem?_eq_getElem hindex, List.getElem?_eq_getElem hindex']
      exact ht
    · have hindex' : ¬index < s'.tasks.length := h.agrees.slots ▸ hindex
      rw [List.getElem?_eq_none (Nat.le_of_not_lt hindex), List.getElem?_eq_none (Nat.le_of_not_lt hindex')]
      exact .none
  · change (s.tasks.set index t)[other]? = s₀.tasks[other]?
    rw [List.getElem?_set_ne hother.symm]
    exact h.spares.others other hother

end Tracked

/-! ## Making, polling and dropping a loop -/

section Doings

variable {o : Owners} {index : Nat} {first : List Nat} {s₀ : Session}

/-- What the two worlds do, the two sessions do. -/
theorem onWorld_tracked {A B : Type} {m : Effect World A} {m' : Effect World B} {Q : List Nat → A → B → Prop}
    {ids : List Nat} {s s' : Session} (h : Tracked o index first s₀ ids s s')
    (hm : (m s.world).PairedUnless (World.Strayed o index) (AtSome (World.Tracked o index ids s.world))
      (With (World.Tracked o index ids s.world) Q) (m' s'.world)) :
    (onWorld m s).PairedUnless (Strayed o index) (AtSome (Tracked o index first s₀))
      (With (Tracked o index first s₀) Q) (onWorld m' s') := by
  obtain hlost | hpair := hm
  · refine .inl ?_
    rw [onWorld]
    cases hv : m' s'.world <;> rw [hv] at hlost <;> exact hlost
  refine .inr ?_
  rw [onWorld, onWorld]
  cases hw : m s.world with
  | returned a w =>
    rw [hw] at hpair
    obtain ⟨b, v, hv, ids', htracked, hQ⟩ := hpair.exists_right
    rw [hv]
    exact ⟨ids', h.setWorld htracked, hQ⟩
  | broken reason w =>
    rw [hw] at hpair
    obtain ⟨v, hv, ids', htracked⟩ := hpair.broken_right
    rw [hv]
    exact ⟨rfl, ids', h.setWorld htracked⟩
  | cut w =>
    rw [hw] at hpair
    cases hv : m' s'.world with
    | cut v =>
      rw [hv] at hpair
      obtain ⟨d, ids', htracked⟩ := hpair
      exact ⟨d, ids', h.setWorld htracked⟩
    | returned b v => rw [hv] at hpair; exact hpair.elim
    | broken reason v => rw [hv] at hpair; exact hpair.elim

/-- In both sessions the computation does the same, unless the loop strays. -/
def Private (o : Owners) (index : Nat) (first : List Nat) (s₀ : Session) {A : Type} (m : Effect Session A) :
    Prop :=
  Effect.PairedUnless (Strayed o index) (AtSome (Tracked o index first s₀)) (Same (AtSome (Tracked o index first s₀)))
    m m

theorem private_pure {A : Type} (a : A) : Private o index first s₀ (pure a) := (Effect.Paired.pure_same a).unless

theorem Private.bind {A B : Type} {m : Effect Session A} {k : A → Effect Session B}
    (h : Private o index first s₀ m) (hkeeps : ∀ a, Effect.Keeps Uses (k a))
    (hk : ∀ a, Private o index first s₀ (k a)) : Private o index first s₀ (m >>= k) :=
  h.bind_same (fun a => lasting_of_uses (hkeeps a)) hk

theorem Private.bind_pure {A B : Type} {m : Effect Session A} (h : Private o index first s₀ m) (f : A → B) :
    Private o index first s₀ (m >>= fun a => pure (f a)) :=
  h.bind (fun _ => Effect.Keeps.pure _) fun _ => private_pure _

theorem private_onWorld {A : Type} {m : Effect World A}
    (hm : ∀ first w₀, Alike (AtSome (World.Tracked o index first w₀)) m) :
    Private o index first s₀ (onWorld m) := by
  rintro s s' ⟨ids, h⟩
  have hsame := hm ids s.world s.world s'.world ⟨ids, h.world.here⟩
  have hwith : (m s.world).Paired (AtSome (World.Tracked o index ids s.world))
      (With (World.Tracked o index ids s.world) fun _ a b => a = b) (m s'.world) :=
    hsame.imp fun ⟨heq, ids', h'⟩ => ⟨ids', h', heq⟩
  exact (onWorld_tracked h hwith.unless).imp fun ⟨ids', h', heq⟩ => ⟨heq, ids', h'⟩

theorem drop_tracked : Private o index first s₀ (setTask index none) :=
  Effect.Paired.unless (Effect.Paired.changes fun _ _ ⟨ids, h⟩ => ⟨ids, h.setTask .none⟩)

theorem create_tracked (hspecs : ∀ spec, s₀.specs[index]? = some spec → spec.Confined o index) (fuel : Nat) :
    Private o index first s₀ (create fuel index) := by
  -- The specification that is read is the same in both sessions, and it is one of the first session.
  have hread : Effect.Paired (AtSome (Tracked o index first s₀))
      (fun spec spec' s s' =>
        spec = spec' ∧ (∀ x ∈ spec, x.Confined o index) ∧ AtSome (Tracked o index first s₀) 0 s s')
      (Effect.reads fun s => s.specs[index]?) (Effect.reads fun s => s.specs[index]?) := by
    rintro s s' ⟨ids, h⟩
    have hkept : s.specs[index]? = s₀.specs[index]? := by rw [h.spares.specs]
    exact ⟨congrArg (·[index]?) h.agrees.specs, fun spec hspec => hspecs spec (hkept.symm.trans hspec), ids, h⟩
  intro s s' hs
  refine (hread s s' hs).bind_unless fun spec _ s s' hspec => ?_
  obtain ⟨rfl, hconfined, ids, h⟩ := hspec
  cases spec with
  | none => exact .inr ⟨rfl, ids, h⟩
  | some spec =>
    obtain ⟨hshape, hstep⟩ := hconfined spec rfl
    have hlaunch := launch_tracked (build_tracked fuel) fuel [] hshape hstep ids s.world s.world s'.world
      ⟨ids, h.world.here⟩
    refine (onWorld_tracked h hlaunch.unless).bind (fun task => ?_) fun task task' s s' htask => ?_
    · exact lasting_of_uses (keeps_setTask index (some task))
    · obtain ⟨ids', h', htask⟩ := htask
      exact .inr ⟨rfl, ids', h'.setTask (.some htask)⟩

theorem task_tracked :
    Effect.Paired (AtSome (Tracked o index first s₀))
      (With (Tracked o index first s₀) fun ids => Option.Rel (Task.Renumbered o index ids)) (task index)
      (task index) := fun _ _ ⟨ids, h⟩ => ⟨ids, h, h.agrees.task⟩

theorem poll_tracked (fuel : Nat) : Private o index first s₀ (poll fuel index) := by
  intro s s' hs
  refine (task_tracked s s' hs).bind_unless fun t t' s s' ht => ?_
  obtain ⟨ids, h, ht⟩ := ht
  cases ht with
  | none => exact .inr ⟨rfl, ids, h⟩
  | @some task task' htask =>
    have hnumbered : Tracked o index first s₀ ids { s with world := { s.world with poller := s.world.poller + 1 } }
        { s' with world := { s'.world with poller := s'.world.poller + 1 } } :=
      h.setWorld (h.world.here.setPoller _ _)
    have hpolled := Task.poll_tracked fuel _ _ _ _ _ _ _ hnumbered.world.here htask
    change ((onWorld (task.poll fuel).attempt >>= settle index) _).PairedUnless _ _ _
      ((onWorld (task'.poll fuel).attempt >>= settle index) _)
    refine (onWorld_tracked hnumbered hpolled.attempt).bind (fun r => ?_) fun r r' s s' hr => ?_
    · exact lasting_of_uses (keeps_settle index r)
    obtain ⟨ids', h', ⟨reason, rfl, rfl⟩ | ⟨⟨answer, task⟩, ⟨answer', task'⟩, rfl, rfl, hleft⟩⟩ := hr
    · exact .inr ⟨rfl, ids', h'.setTask .none⟩
    cases hleft.1
    cases answer with
    | panicked cause => exact .inr ⟨rfl, ids', h'.setTask .none⟩
    | pending => exact .inr ⟨rfl, ids', h'.setTask (.some (hleft.state (by rintro cause ⟨⟩)))⟩
    | ready outcome => exact .inr ⟨rfl, ids', h'.setTask (.some (hleft.state (by rintro cause ⟨⟩)))⟩

theorem finish_tracked (fuel more made : Nat) : Private o index first s₀ (finish fuel index more made) := by
  induction more generalizing made with
  | zero => exact (poll_tracked fuel).bind_pure _
  | succ more ih =>
    refine (poll_tracked fuel).bind (fun answer => ?_) fun answer => ?_
    · cases answer with
      | polled p =>
        cases p with
        | pending => exact keeps_finish fuel index more (made + 1)
        | _ => exact Effect.Keeps.pure _
      | _ => exact Effect.Keeps.pure _
    · cases answer with
      | polled p =>
        cases p with
        | pending => exact ih (made + 1)
        | _ => exact private_pure _
      | _ => exact private_pure _

/-! ## Actions -/

theorem perform_tracked (hspecs : ∀ spec, s₀.specs[index]? = some spec → spec.Confined o index) (fuel : Nat)
    {action : Action} (howner : action.owner o = index) (haction : action.Confined o) :
    Private o index first s₀ (perform fuel action) := by
  subst howner
  cases action with
  | create index =>
    refine drop_tracked.bind (fun _ => ?_) fun _ => (create_tracked hspecs fuel).bind_pure _
    exact (keeps_create fuel index).bind fun _ => Effect.Keeps.pure _
  | poll index => exact (poll_tracked fuel).bind_pure _
  | finish index limit => exact (finish_tracked fuel _ 0).bind_pure _
  | isOver index =>
    intro s s' hs
    refine (task_tracked s s' hs).bind_unless fun t t' s s' ht => ?_
    obtain ⟨ids, h, ht⟩ := ht
    have hover : t.bind Task.isOver? = t'.bind Task.isOver? := by
      cases ht with
      | none => rfl
      | some htask => exact htask.isOver
    rw [hover]
    cases t'.bind Task.isOver? <;> exact .inr ⟨rfl, ids, h⟩
  | drop index => exact drop_tracked.bind_pure _
  | send channel value =>
    have hvalue : Private o (o.channel channel) first s₀ (onWorld (evaluate [] value)) :=
      private_onWorld fun _ _ => confined_evaluate World.lockstep_tracked [] haction
    refine hvalue.bind (fun v => ?_) fun v => (private_onWorld fun _ _ => deliver_tracked rfl _).bind_pure _
    exact (keeps_onWorld (World.keeps_deliver channel _)).bind fun _ => Effect.Keeps.pure _
  | fail channel failure =>
    have hfailure : Private o (o.channel channel) first s₀
        (onWorld (Effect.reads fun w => failure.eval w.registers [])) :=
      private_onWorld fun _ _ => confined_failure World.lockstep_tracked [] haction
    refine hfailure.bind (fun v => ?_) fun v => (private_onWorld fun _ _ => deliver_tracked rfl _).bind_pure _
    exact (keeps_onWorld (World.keeps_deliver channel _)).bind fun _ => Effect.Keeps.pure _

end Doings

/-- The same report, with the numbers of the steps in the shared session. -/
structure Step.Renumbered (ids : List Nat) (r r' : Step) : Prop where
  reply : r.reply = r'.reply
  woken : r.woken = r'.woken
  events : List.Forall₂ (Event.Renumbered ids) r.events r'.events

theorem Step.Renumbered.mono {ids ids' : List Nat} (hgrown : ids <+: ids') {r r' : Step}
    (h : r.Renumbered ids r') : r.Renumbered ids' r' :=
  { h with events := h.events.imp fun _ _ he => he.mono hgrown }

/-- One action in sessions that agree. -/
theorem step_tracked {o : Owners} {ids : List Nat} {s s' : Session} {action : Action}
    (h : Agrees o (action.owner o) ids s s')
    (hspecs : ∀ spec, s.specs[action.owner o]? = some spec → spec.Confined o (action.owner o))
    (haction : action.Confined o) (fuel : Nat) :
    (step fuel action s).PairedUnless (Strayed o (action.owner o)) (AtSome (Tracked o (action.owner o) ids s))
      (With (Tracked o (action.owner o) ids s) Step.Renumbered) (step fuel action s') := by
  have hcleared : Tracked o (action.owner o) ids s ids { s with world := { s.world with events := [], woken := [] } }
      { s' with world := { s'.world with events := [], woken := [] } } :=
    ⟨List.prefix_refl ids, { h with world := { h.world with } }, .nil, rfl,
      { Spares.refl o (action.owner o) s with world := { World.Spares.refl o (action.owner o) s.world with } }⟩
  have hperformed := perform_tracked hspecs fuel rfl haction _ _ ⟨ids, hcleared⟩
  change ((perform fuel action >>= _) _).PairedUnless _ _ _ ((perform fuel action >>= _) _)
  refine hperformed.bind (fun _ => Effect.Keeps.reads _) fun reply _ s s' hsame => ?_
  obtain ⟨rfl, ids', h'⟩ := hsame
  exact .inr ⟨ids', h', rfl, h'.woken, List.rel_reverse h'.events⟩

end Session

end Stepwise.Script
