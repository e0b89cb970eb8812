import Mathlib.Data.List.Forall2
import Stepwise.Proofs.Script.Follows
import Stepwise.Proofs.Unless

/-! # One loop in a world with others and on its own

A loop runs in a world that it shares with other loops, and in a world of its own. Its steps have other numbers
there: `ids` lists the numbers in the shared world, in the order in which its own world counts them.

* `World.Agrees`: what belongs to the loop is the same in both worlds.
* `World.Spares`: what does not belong to the loop is as it was. `Agrees.of_spares`: so nobody else is disturbed.
* `World.Tracked`: since some moment the loop has done the same in both worlds, and spared all others. A script
  that is confined to what belongs to the loop cannot tell the two apart (`World.lockstep_tracked`); the lemmas
  after it say so of steps, of the meter and of mailboxes.
* `World.Strayed`: the loop has used a mailbox that does not belong to it. Nothing is said of what comes then.
-/

namespace Stepwise.Script
set_option autoImplicit false

/-- The same event, with the number of its step in the shared world. -/
inductive Event.Renumbered (ids : List Nat) : Event → Event → Prop
  | step {id id' : Nat} (arguments : List Value) (h : ids[id']? = some id) :
    Renumbered ids (.step id arguments) (.step id' arguments)
  | poll {id id' : Nat} (h : ids[id']? = some id) : Renumbered ids (.poll id) (.poll id')
  | plain {e : Event} (h : e.isPlain = true) : Renumbered ids e e

theorem getElem?_of_grown {ids ids' : List Nat} (hgrown : ids <+: ids') {k id : Nat} (h : ids[k]? = some id) :
    ids'[k]? = some id := by
  obtain ⟨later, rfl⟩ := hgrown
  rw [List.getElem?_append_left (List.getElem?_eq_some_iff.1 h).1]
  exact h

theorem Event.Renumbered.mono {ids ids' : List Nat} (hgrown : ids <+: ids') {e e' : Event}
    (h : e.Renumbered ids e') : e.Renumbered ids' e' := by
  cases h with
  | step arguments h => exact .step arguments (getElem?_of_grown hgrown h)
  | poll h => exact .poll (getElem?_of_grown hgrown h)
  | plain h => exact .plain h

/-- What belongs to the loop is the same in the shared world and in its own. -/
structure World.Agrees (o : Owners) (index : Nat) (ids : List Nat) (w v : World) : Prop where
  registers : w.registers.Agree (o.registers index) v.registers
  content : ∀ c, o.channel c = index → (w.mailbox c).content = (v.mailbox c).content
  waker : ∀ c, o.channel c = index → (w.mailbox c).waker.isSome = (v.mailbox c).waker.isSome
  meter : o.meter = index → w.meter = v.meter
  flavor : w.flavor = v.flavor
  level : w.level = v.level
  counted : ids.length = v.nextStep
  increasing : ids.Pairwise (· < ·)
  below : ∀ id ∈ ids, id < w.nextStep

/-- What does not belong to the loop is as it was. -/
structure World.Spares (o : Owners) (index : Nat) (w₀ w : World) : Prop where
  registers : ∀ name, o.register name ≠ index → w.registers.value name = w₀.registers.value name
  mailbox : ∀ c, o.channel c ≠ index → w.mailbox c = w₀.mailbox c
  meter : o.meter ≠ index → w.meter = w₀.meter
  flavor : w.flavor = w₀.flavor
  level : w.level = w₀.level
  nextStep : w₀.nextStep ≤ w.nextStep

theorem World.Spares.refl (o : Owners) (index : Nat) (w : World) : World.Spares o index w w where
  registers _ _ := rfl
  mailbox _ _ := rfl
  meter _ := rfl
  flavor := rfl
  level := rfl
  nextStep := le_rfl

theorem World.Spares.trans {o : Owners} {index : Nat} {w₀ w₁ w₂ : World} (h : World.Spares o index w₀ w₁)
    (h' : World.Spares o index w₁ w₂) : World.Spares o index w₀ w₂ where
  registers name hname := (h'.registers name hname).trans (h.registers name hname)
  mailbox c hc := (h'.mailbox c hc).trans (h.mailbox c hc)
  meter hm := (h'.meter hm).trans (h.meter hm)
  flavor := h'.flavor.trans h.flavor
  level := h'.level.trans h.level
  nextStep := h.nextStep.trans h'.nextStep

/-- What one loop does to the shared world does not disturb another one. -/
theorem World.Agrees.of_spares {o : Owners} {index other : Nat} (hne : index ≠ other) {ids : List Nat}
    {w₀ w v : World} (h : World.Agrees o index ids w₀ v) (hspares : World.Spares o other w₀ w) :
    World.Agrees o index ids w v where
  registers name hname := by
    have hother : o.register name ≠ other := fun heq => hne (hname.symm.trans heq)
    exact (hspares.registers name hother).trans (h.registers name hname)
  content c hc := by
    rw [hspares.mailbox c fun heq => hne (hc.symm.trans heq)]
    exact h.content c hc
  waker c hc := by
    rw [hspares.mailbox c fun heq => hne (hc.symm.trans heq)]
    exact h.waker c hc
  meter hm := (hspares.meter fun heq => hne (hm.symm.trans heq)).trans (h.meter hm)
  flavor := hspares.flavor.trans h.flavor
  level := hspares.level.trans h.level
  counted := h.counted
  increasing := h.increasing
  below id hid := (h.below id hid).trans_le hspares.nextStep

/-- A mailbox was used that does not belong to this loop. -/
def World.Strayed (o : Owners) (index : Nat) (w : World) : Prop := ∃ c ∈ w.used, o.channel c ≠ index

theorem World.Follows.lasting {o : Owners} {index : Nat} {w w' : World} (h : w.Follows w') :
    Lasting (World.Strayed o index) w w' := fun ⟨c, hc, hne⟩ => ⟨c, h.used hc, hne⟩

theorem lasting_of_keeps {A : Type} {o : Owners} {index : Nat} {m : Effect World A}
    (h : Effect.Keeps World.Follows m) : Effect.Keeps (Lasting (World.Strayed o index)) m :=
  h.mono fun _ _ hfollows => hfollows.lasting

/-- Since the numbers were `first` and the shared world was `w₀`, the loop has done the same in both worlds. -/
structure World.Tracked (o : Owners) (index : Nat) (first : List Nat) (w₀ : World) (ids : List Nat)
    (w v : World) : Prop where
  grown : first <+: ids
  agrees : World.Agrees o index ids w v
  events : List.Forall₂ (Event.Renumbered ids) w.events v.events
  woken : w.woken.length = v.woken.length
  spares : World.Spares o index w₀ w

namespace World.Tracked

variable {o : Owners} {index : Nat} {first ids ids' : List Nat} {w₀ w w' v v' : World}

/-- To go on from later worlds. -/
theorem rebase (h : World.Tracked o index first w₀ ids w v) (h' : World.Tracked o index ids w ids' w' v') :
    World.Tracked o index first w₀ ids' w' v' :=
  { h' with
    grown := h.grown.trans h'.grown
    spares := h.spares.trans h'.spares }

/-- Any two worlds of the loop are where it may begin. -/
theorem here (h : World.Tracked o index first w₀ ids w v) : World.Tracked o index ids w ids w v :=
  { h with
    grown := List.prefix_refl ids
    spares := World.Spares.refl o index w }

theorem note (h : World.Tracked o index first w₀ ids w v) {e e' : Event} (he : e.Renumbered ids e') :
    World.Tracked o index first w₀ ids { w with events := e :: w.events }
      { v with events := e' :: v.events } :=
  ⟨h.grown, { h.agrees with }, .cons he h.events, h.woken, { h.spares with }⟩

theorem setRegister (h : World.Tracked o index first w₀ ids w v) {name : String} (hname : o.register name = index)
    (value : Value) :
    World.Tracked o index first w₀ ids { w with registers := w.registers.set name value }
      { v with registers := v.registers.set name value } := by
  refine ⟨h.grown, { h.agrees with registers := h.agrees.registers.set name value }, h.events, h.woken,
    { h.spares with registers := fun other hother => ?_ }⟩
  have hne : other ≠ name := fun heq => hother (heq ▸ hname)
  change (w.registers.set name value).value other = w₀.registers.value other
  rw [Registers.value_set, if_neg hne]
  exact h.spares.registers other hother

theorem setMailbox (h : World.Tracked o index first w₀ ids w v) {c : Int64} (hc : o.channel c = index)
    {box box' : Mailbox} (hcontent : box.content = box'.content)
    (hwaker : box.waker.isSome = box'.waker.isSome) :
    World.Tracked o index first w₀ ids (w.setMailbox c box) (v.setMailbox c box') := by
  refine ⟨h.grown, { h.agrees with content := fun d hd => ?_, waker := fun d hd => ?_ }, h.events, h.woken,
    { h.spares with mailbox := fun d hd => ?_ }⟩
  · rw [mailbox_setMailbox, mailbox_setMailbox]
    split
    · exact hcontent
    · exact h.agrees.content d hd
  · rw [mailbox_setMailbox, mailbox_setMailbox]
    split
    · exact hwaker
    · exact h.agrees.waker d hd
  · have hne : d ≠ c := fun heq => hd (heq ▸ hc)
    rw [mailbox_setMailbox, if_neg hne]
    exact h.spares.mailbox d hd

theorem setMeter (h : World.Tracked o index first w₀ ids w v) (hmeter : o.meter = index) (m : Meter) :
    World.Tracked o index first w₀ ids { w with meter := m } { v with meter := m } :=
  ⟨h.grown, { h.agrees with meter := fun _ => rfl }, h.events, h.woken,
    { h.spares with meter := fun hne => absurd hmeter hne }⟩

theorem wake (h : World.Tracked o index first w₀ ids w v) (number number' : Nat) :
    World.Tracked o index first w₀ ids { w with woken := number :: w.woken }
      { v with woken := number' :: v.woken } :=
  ⟨h.grown, { h.agrees with }, h.events, congrArg (· + 1) h.woken, { h.spares with }⟩

/-- The polls may have other numbers. -/
theorem setPoller (h : World.Tracked o index first w₀ ids w v) (number number' : Nat) :
    World.Tracked o index first w₀ ids { w with poller := number } { v with poller := number' } :=
  ⟨h.grown, { h.agrees with }, h.events, h.woken, { h.spares with }⟩

/-- A new step gets the next number of either world. -/
theorem newStep (h : World.Tracked o index first w₀ ids w v) :
    World.Tracked o index first w₀ (ids ++ [w.nextStep]) { w with nextStep := w.nextStep + 1 }
      { v with nextStep := v.nextStep + 1 } := by
  have hgrown : ids <+: ids ++ [w.nextStep] := List.prefix_append ids [w.nextStep]
  refine ⟨h.grown.trans hgrown, { h.agrees with counted := ?_, increasing := ?_, below := ?_ },
    h.events.imp fun _ _ he => he.mono hgrown, h.woken,
    { h.spares with nextStep := h.spares.nextStep.trans (Nat.le_succ _) }⟩
  · rw [List.length_append, h.agrees.counted]
    rfl
  · rw [List.pairwise_append]
    refine ⟨h.agrees.increasing, List.pairwise_singleton _ _, fun id hid next hnext => ?_⟩
    rw [List.mem_singleton.1 hnext]
    exact h.agrees.below id hid
  · intro id hid
    obtain hid | hid := List.mem_append.1 hid
    · exact (h.agrees.below id hid).trans (Nat.lt_succ_self _)
    · rw [List.mem_singleton.1 hid]
      exact Nat.lt_succ_self _

end World.Tracked

/-! ## What a script does in both worlds -/

section Tracked

variable {o : Owners} {index : Nat} {first : List Nat} {w₀ : World}

/-- A script that is confined to what belongs to the loop cannot tell the two worlds apart. -/
theorem World.lockstep_tracked :
    World.LockstepOn (o.registers index) (AtSome (World.Tracked o index first w₀) 0) where
  registers := fun ⟨_, h⟩ => h.agrees.registers
  level := fun ⟨_, h⟩ => h.agrees.level
  event := fun hplain ⟨ids, h⟩ => ⟨ids, h.note (.plain hplain)⟩
  assign := fun value hname ⟨ids, h⟩ => ⟨ids, h.setRegister hname value⟩

theorem newStep_tracked :
    Effect.Paired (AtSome (World.Tracked o index first w₀))
      (With (World.Tracked o index first w₀) fun ids id id' => ids[id']? = some id) World.newStep
      World.newStep := by
  rintro w v ⟨ids, h⟩
  refine ⟨_, h.newStep, ?_⟩
  rw [← h.agrees.counted]
  exact List.getElem?_concat_length

theorem changeMeter_tracked (hmeter : o.meter = index) (f : Meter → Meter) :
    Alike (AtSome (World.Tracked o index first w₀)) (World.changeMeter f) := by
  refine Effect.Paired.changes fun w v ⟨ids, h⟩ => ⟨ids, ?_⟩
  rw [h.agrees.meter hmeter]
  exact h.setMeter hmeter (f v.meter)

theorem requestMeter_tracked (hmeter : o.meter = index) (outcome : Outcome Value) :
    Alike (AtSome (World.Tracked o index first w₀)) (World.requestMeter outcome) := by
  rintro w v ⟨ids, h⟩
  have hrequest : w.meter.request w.flavor outcome = v.meter.request v.flavor outcome := by
    rw [h.agrees.meter hmeter, h.agrees.flavor]
  rw [World.requestMeter, World.requestMeter, hrequest]
  obtain ⟨step, m⟩ : MeterStep Value × Meter := v.meter.request v.flavor outcome
  have hset := h.setMeter hmeter m
  exact ⟨rfl, ids, hset.grown, { hset.agrees with }, hset.events, hset.woken, { hset.spares with }⟩

theorem expectWaits_tracked (count : Nat) :
    Alike (AtSome (World.Tracked o index first w₀)) (World.expectWaits count) :=
  Effect.Paired.changes fun _ _ ⟨ids, h⟩ =>
    ⟨ids, h.grown, { h.agrees with }, h.events, h.woken, { h.spares with }⟩

/-- To receive is the same on both sides, if the mailbox belongs to the loop. -/
theorem collect_tracked {ids : List Nat} {w v : World} (h : World.Tracked o index first w₀ ids w v) (c : Int64) :
    (World.collect c w).PairedUnless (World.Strayed o index) (AtSome (World.Tracked o index first w₀))
      (Same (AtSome (World.Tracked o index first w₀))) (World.collect c v) := by
  by_cases hc : o.channel c = index
  · have hcontent := h.agrees.content c hc
    have hwaker := h.agrees.waker c hc
    simp only [World.collect, hcontent]
    cases (v.mailbox c).content with
    | some outcome => exact .inr ⟨rfl, ids, h.setMailbox hc rfl hwaker⟩
    | none => exact .inr ⟨rfl, ids, h.setMailbox hc rfl rfl⟩
  · refine .inl ⟨c, ?_, hc⟩
    rw [World.collect]
    cases (v.mailbox c).content <;> exact World.mem_used_setMailbox.2 (.inl rfl)

theorem deliver_tracked {c : Int64} (hc : o.channel c = index) (outcome : Outcome Value) :
    Alike (AtSome (World.Tracked o index first w₀)) (World.deliver c outcome) := by
  rintro w v ⟨ids, h⟩
  have hwaker := h.agrees.waker c hc
  have hset : ∀ box : Mailbox, World.Tracked o index first w₀ ids (w.setMailbox c box) (v.setMailbox c box) :=
    fun box => h.setMailbox hc rfl rfl
  simp only [World.deliver, h.agrees.content c hc]
  cases (v.mailbox c).content with
  | some held => exact ⟨rfl, ids, h⟩
  | none =>
    cases hw : (w.mailbox c).waker with
    | none =>
      cases hv : (v.mailbox c).waker with
      | none => exact ⟨rfl, ids, hset _⟩
      | some number' => rw [hw, hv] at hwaker; cases hwaker
    | some number =>
      cases hv : (v.mailbox c).waker with
      | none => rw [hw, hv] at hwaker; cases hwaker
      | some number' => exact ⟨rfl, ids, (hset _).wake number number'⟩

end Tracked

end Stepwise.Script
