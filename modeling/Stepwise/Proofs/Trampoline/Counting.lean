import Stepwise.Proofs.Trampoline.Stepping

/-! # How many steps it takes

A `step` that turns the nesting runs nothing, and still single steps come to an end wherever `run` does. What
pays for a turn is a continuation that `run` puts on its list while others wait there.

* `Tally` counts the work and the continuations of a run, and `runTallied` is the run with this count
  (`runTallied_erased`).
* `runTallied_compose`: to hold two continuations as one takes one more push, which is not nested.
* `stepsLeft_step`: a step leaves one step less to be made, whichever step it is.
* `stepUpTo_exact`: so single steps complete a computation after exactly as many steps as the tally of its run
  says, and they complete no computation whose run does not return.
-/

namespace Stepwise.Trampoline
set_option autoImplicit false

open Effect (Below Ends)

/-! ## The tally of a run -/

/-- What a run did. -/
structure Tally where
  /-- Work that ran. -/
  thunks : Nat
  /-- Continuations that were put on the list of those that wait. -/
  pushes : Nat
  /-- Those of them that were put on a list that was not empty. -/
  nested : Nat
  nested_le : nested ≤ pushes
deriving DecidableEq, Repr

namespace Tally

variable {A : Type}

def zero : Tally := ⟨0, 0, 0, Nat.le_refl 0⟩

/-- The number of single steps that do the same. -/
def steps (c : Tally) : Nat := c.thunks + c.pushes + c.nested

def thunk (c : Tally) : Tally := { c with thunks := c.thunks + 1 }

/-- One more continuation was put on a list. -/
def push (waiting : List A) (c : Tally) : Tally :=
  match waiting with
  | [] => { c with pushes := c.pushes + 1, nested_le := Nat.le_succ_of_le c.nested_le }
  | _ :: _ =>
    { c with
      pushes := c.pushes + 1
      nested := c.nested + 1
      nested_le := Nat.succ_le_succ c.nested_le }

theorem steps_thunk (c : Tally) : c.thunk.steps = c.steps + 1 := by
  simp only [steps, thunk]
  omega

theorem steps_push_nil (c : Tally) : (c.push ([] : List A)).steps = c.steps + 1 := by
  simp only [steps, push]
  omega

theorem steps_push_cons (a : A) (waiting : List A) (c : Tally) :
    (c.push (a :: waiting)).steps = c.steps + 2 := by
  simp only [steps, push]
  omega

theorem thunk_push (waiting : List A) (c : Tally) : (c.push waiting).thunk = c.thunk.push waiting := by
  cases waiting <;> rfl

theorem push_push (waiting waiting' : List A) (c : Tally) :
    (c.push waiting).push waiting' = (c.push waiting').push waiting := by
  cases waiting <;> cases waiting' <;> rfl

theorem bounds (c : Tally) : c.thunks + c.pushes ≤ c.steps ∧ c.steps ≤ c.thunks + 2 * c.pushes := by
  have hle := c.nested_le
  simp only [steps]
  omega

end Tally

variable {τ κ σ α : Type}

/-- What is made of the count that comes with a value. -/
def counted {A B : Type} (f : A → B) (m : Effect σ (α × A)) : Effect σ (α × B) := Prod.map id f <$> m

/-- `runWith`, which also gives the tally of what it did. -/
def runTallied (b : Meaning τ κ σ α) (fuel : Nat) (waiting : List (Cont κ σ α))
    (t : Trampoline τ κ σ α) : Effect σ (α × Tally) :=
  match t, waiting, fuel with
  | .done v, [], _ => pure (v, .zero)
  | _, _, 0 => Effect.cut
  | .done v, next :: waiting, fuel + 1 => do
    let t ← b.resume next v
    runTallied b fuel waiting t
  | .more work, waiting, fuel + 1 => counted Tally.thunk do
    let t ← b.force work
    runTallied b fuel waiting t
  | .andThen first next, waiting, fuel + 1 =>
    counted (Tally.push waiting) (runTallied b fuel (next :: waiting) first)

section Counted

variable {A B C : Type}

theorem counted_counted (f : A → B) (g : B → C) (m : Effect σ (α × A)) :
    counted g (counted f m) = counted (fun a => g (f a)) m := by
  rw [counted, counted, ← comp_map]
  rfl

theorem counted_bind {T : Type} (f : A → B) (m : Effect σ T) (k : T → Effect σ (α × A)) :
    counted f (m >>= k) = m >>= fun t => counted f (k t) := by
  simp only [counted, map_bind]

theorem returned_of_counted {f : A → B} {m : Effect σ (α × A)} {s s' : σ} {v : α} {c : B}
    (h : counted f m s = .returned (v, c) s') : ∃ a, c = f a ∧ m s = .returned (v, a) s' := by
  rw [counted, map_eq_pure_bind] at h
  obtain ⟨⟨u, a⟩, s'', hm, hpure⟩ := Effect.returned_of_bind h
  cases hpure
  exact ⟨a, rfl, hm⟩

theorem fst_counted (f : A → B) (m : Effect σ (α × A)) : Prod.fst <$> counted f m = Prod.fst <$> m := by
  rw [counted, ← comp_map]
  rfl

theorem counted_below {m m' : Effect σ (α × A)} (f : A → B) (h : m.Below m') :
    (counted f m).Below (counted f m') := by
  rw [counted, counted, map_eq_pure_bind, map_eq_pure_bind]
  exact h.bind fun _ => Below.refl _

end Counted

section Counting

variable (b : Meaning τ κ σ α)

theorem runTallied_done_nil (fuel : Nat) (v : α) : runTallied b fuel [] (done v) = pure (v, .zero) := by
  cases fuel <;> rfl

theorem runTallied_done_cons (fuel : Nat) (next : Cont κ σ α) (waiting : List (Cont κ σ α)) (v : α) :
    runTallied b (fuel + 1) (next :: waiting) (done v) =
      b.resume next v >>= runTallied b fuel waiting := rfl

theorem runTallied_more (fuel : Nat) (waiting : List (Cont κ σ α)) (work : Thunk τ κ σ α) :
    runTallied b (fuel + 1) waiting (more work) =
      counted Tally.thunk (b.force work >>= runTallied b fuel waiting) := rfl

theorem runTallied_andThen (fuel : Nat) (waiting : List (Cont κ σ α)) (first : Trampoline τ κ σ α)
    (next : Cont κ σ α) :
    runTallied b (fuel + 1) waiting (first.andThen next) =
      counted (Tally.push waiting) (runTallied b fuel (next :: waiting) first) := rfl

/-- Without the tally it is the run. -/
theorem runTallied_erased (fuel : Nat) (waiting : List (Cont κ σ α)) (t : Trampoline τ κ σ α) :
    Prod.fst <$> runTallied b fuel waiting t = runWith b fuel waiting t := by
  induction fuel generalizing waiting t with
  | zero =>
    cases t with
    | done v => cases waiting <;> rfl
    | more work => rfl
    | andThen first next => rfl
  | succ fuel ih =>
    cases t with
    | done v =>
      cases waiting with
      | nil => rfl
      | cons next waiting =>
        rw [runTallied_done_cons, runWith_done_cons, map_bind]
        exact bind_congr fun t => ih waiting t
    | more work =>
      rw [runTallied_more, runWith_more, fst_counted, map_bind]
      exact bind_congr fun t => ih waiting t
    | andThen first next =>
      rw [runTallied_andThen, runWith_andThen, fst_counted]
      exact ih (next :: waiting) first

/-- To hold two continuations as one takes one more push, onto an empty list. -/
theorem runTallied_compose (fuel : Nat) (before : List (Cont κ σ α)) (inner outer : Cont κ σ α)
    (t : Trampoline τ κ σ α) :
    (counted (Tally.push ([] : List (Cont κ σ α))) (runTallied b fuel (before ++ [inner, outer]) t)).Below
      (runTallied b (fuel + 1) (before ++ [.compose inner outer]) t) := by
  induction fuel generalizing before t with
  | zero =>
    cases t with
    | done v => cases before <;> exact Below.cut _
    | more work => exact Below.cut _
    | andThen first next => exact Below.cut _
  | succ fuel ih =>
    cases t with
    | done v =>
      cases before with
      | nil =>
        simp only [List.nil_append, runTallied_done_cons, counted_bind, Meaning.resume, bind_assoc, pure_bind]
        exact (Below.refl _).bind fun t => Below.of_eq rfl
      | cons next before =>
        simp only [List.cons_append, runTallied_done_cons, counted_bind]
        exact (Below.refl _).bind fun t => ih before t
    | more work =>
      simp only [runTallied_more, counted_counted, ← Tally.thunk_push]
      rw [← counted_counted, counted_bind]
      exact counted_below _ ((Below.refl _).bind fun t => ih before t)
    | andThen first next =>
      -- whatever waits before the two, the list is as empty as it is with one in their place
      have hpush : ∀ c : Tally, (c.push (before ++ [inner, outer])).push ([] : List (Cont κ σ α)) =
          (c.push ([] : List (Cont κ σ α))).push (before ++ [.compose inner outer]) := by
        intro c
        cases before <;> exact Tally.push_push _ _ c
      simp only [runTallied_andThen, counted_counted, hpush]
      rw [← counted_counted]
      exact counted_below _ (ih (next :: before) first)

/-! ## Single steps -/

/-- The run from here on, with the number of single steps that do the same. -/
def stepsLeft (fuel : Nat) (t : Trampoline τ κ σ α) : Effect σ (α × Nat) :=
  counted Tally.steps (runTallied b fuel [] t)

theorem stepsLeft_done (fuel : Nat) (v : α) : stepsLeft b fuel (done v) = pure (v, 0) := by
  rw [stepsLeft, runTallied_done_nil]
  rfl

/-- Each step is one step less. -/
theorem stepsLeft_step (fuel : Nat) (t : Trampoline τ κ σ α) (h : t.isDone = false) :
    ∃ fuel', (stepsLeft b fuel t).Below (counted Nat.succ (t.step b >>= stepsLeft b fuel')) := by
  cases t with
  | done v => cases h
  | more work =>
    cases fuel with
    | zero => exact ⟨0, Below.cut _⟩
    | succ fuel =>
      refine ⟨fuel, Below.of_eq ?_⟩
      simp only [stepsLeft, step, runTallied_more, counted_bind, counted_counted, Tally.steps_thunk]
  | andThen first next =>
    cases fuel with
    | zero => exact ⟨0, Below.cut _⟩
    | succ fuel =>
      cases first with
      | done v =>
        cases fuel with
        | zero => exact ⟨0, Below.cut _⟩
        | succ fuel =>
          refine ⟨fuel, Below.of_eq ?_⟩
          simp only [stepsLeft, step, runTallied_andThen, runTallied_done_cons, counted_bind,
            counted_counted, Tally.steps_push_nil]
      | more work =>
        cases fuel with
        | zero => exact ⟨0, Below.cut _⟩
        | succ fuel =>
          refine ⟨fuel + 1, Below.of_eq ?_⟩
          simp only [stepsLeft, step, runTallied_andThen, runTallied_more, counted_bind,
            counted_counted, bind_assoc, pure_bind, Tally.steps_push_nil, Tally.steps_thunk]
      | andThen first inner =>
        cases fuel with
        | zero => exact ⟨0, Below.cut _⟩
        | succ fuel =>
          -- the turn itself is paid by the nested push
          refine ⟨fuel + 2, ?_⟩
          have hcompose := runTallied_compose b fuel [] inner next first
          have hsteps := counted_below (fun c : Tally => c.steps + 2) hcompose
          simp only [counted_counted, Tally.steps_push_nil] at hsteps
          simp only [stepsLeft, step, runTallied_andThen, counted_counted, pure_bind,
            Tally.steps_push_nil, Tally.steps_push_cons]
          exact hsteps

/-- Where the run returns, a step leads to the rest of the run. -/
theorem step_of_stepsLeft {fuel left : Nat} {t : Trampoline τ κ σ α} {s s' : σ} {v : α}
    (hdone : t.isDone = false) (h : stepsLeft b fuel t s = .returned (v, left) s') :
    ∃ fuel' left' u s'', left = left' + 1 ∧ t.step b s = .returned u s'' ∧
      stepsLeft b fuel' u s'' = .returned (v, left') s' := by
  obtain ⟨fuel', hbelow⟩ := stepsLeft_step b fuel t hdone
  obtain ⟨left', hleft, hrest⟩ := returned_of_counted (hbelow.of_returned h)
  obtain ⟨u, s'', hstep, hu⟩ := Effect.returned_of_bind hrest
  exact ⟨fuel', left', u, s'', hleft, hstep, hu⟩

theorem exists_of_isDone {t : Trampoline τ κ σ α} (h : t.isDone = true) : ∃ v, t = .done v := by
  cases t with
  | done v => exact ⟨v, rfl⟩
  | more work => cases h
  | andThen first next => cases h

theorem go_of_isDone (limit made : Nat) {t : Trampoline τ κ σ α} (h : t.isDone = true) :
    stepUpTo.go b limit made t = pure (made, t) := by
  cases limit with
  | zero => rfl
  | succ limit => rw [stepUpTo.go, if_pos h]

theorem go_succ (limit made : Nat) {t : Trampoline τ κ σ α} (h : t.isDone = false) :
    stepUpTo.go b (limit + 1) made t = t.step b >>= stepUpTo.go b limit (made + 1) := by
  rw [stepUpTo.go, h]
  rfl

/-- As many steps as the run has left complete the computation, and fewer do not. -/
theorem go_of_stepsLeft {fuel left : Nat} {t : Trampoline τ κ σ α} {s s' : σ} {v : α}
    (h : stepsLeft b fuel t s = .returned (v, left) s') (limit made : Nat) :
    (left ≤ limit → stepUpTo.go b limit made t s = .returned (made + left, .done v) s') ∧
    (limit < left → ∃ u s'', stepUpTo.go b limit made t s = .returned (made + limit, u) s'' ∧
      u.isDone = false) := by
  induction limit generalizing fuel left t s made with
  | zero =>
    cases hdone : t.isDone with
    | true =>
      obtain ⟨u, rfl⟩ := exists_of_isDone hdone
      rw [stepsLeft_done] at h
      cases h
      exact ⟨fun _ => rfl, fun hlt => absurd hlt (Nat.lt_irrefl 0)⟩
    | false =>
      obtain ⟨_, left, _, _, rfl, -⟩ := step_of_stepsLeft b hdone h
      exact ⟨fun hle => absurd hle (Nat.not_succ_le_zero left), fun _ => ⟨t, s, rfl, hdone⟩⟩
  | succ limit ih =>
    cases hdone : t.isDone with
    | true =>
      obtain ⟨u, rfl⟩ := exists_of_isDone hdone
      rw [stepsLeft_done] at h
      cases h
      exact ⟨fun _ => rfl, fun hlt => absurd hlt (Nat.not_lt_zero _)⟩
    | false =>
      obtain ⟨_, left, u, s₁, rfl, hstep, hrest⟩ := step_of_stepsLeft b hdone h
      obtain ⟨hcomplete, hshort⟩ := ih hrest (made + 1)
      have hmade : ∀ n, made + 1 + n = made + (n + 1) := fun n => by omega
      rw [hmade] at hcomplete hshort
      rw [go_succ b limit made hdone, Effect.bind_of_returned _ hstep]
      constructor
      · intro hle
        exact hcomplete (Nat.le_of_succ_le_succ hle)
      · intro hlt
        exact hshort (Nat.lt_of_succ_lt_succ hlt)

/-- To stop at a value makes no difference, because a value steps to itself. -/
theorem snd_go (limit made : Nat) (t : Trampoline τ κ σ α) :
    Prod.snd <$> stepUpTo.go b limit made t = stepTimes b limit t := by
  induction limit generalizing made t with
  | zero => rfl
  | succ limit ih =>
    cases hdone : t.isDone with
    | true =>
      rw [go_of_isDone b _ made hdone, stepTimes, step_of_isDone b t hdone, pure_bind,
        ← ih made t, go_of_isDone b _ made hdone]
    | false =>
      rw [go_succ b limit made hdone, map_bind, stepTimes]
      exact bind_congr fun u => ih (made + 1) u

theorem ends_of_stepUpTo {limit made : Nat} {t : Trampoline τ κ σ α} {s s' : σ} {v : α}
    (h : stepUpTo b limit t s = .returned (made, .done v) s') :
    Ends (fun n => t.run b n) s (.returned v s') := by
  have hsteps : stepTimes b limit t s = .returned (.done v) s' := by
    rw [← snd_go b limit 0 t, map_eq_pure_bind]
    exact Effect.bind_of_returned _ h
  refine (stepTimes_agrees_run b limit t s _).1 ⟨rfl, 0, ?_⟩
  exact Effect.bind_of_returned _ hsteps

/-- Where the run returns a value, single steps complete the computation with this value in the same world, and
they take exactly as many steps as the tally of the run says. No number of steps completes a computation whose
run does not return. -/
theorem stepUpTo_exact (t : Trampoline τ κ σ α) (s : σ) :
    (∀ n, Prod.fst <$> runTallied b n [] t = t.run b n) ∧
    (∀ v s', Ends (fun n => t.run b n) s (.returned v s') →
      ∃ c : Tally, Ends (fun n => runTallied b n [] t) s (.returned (v, c) s') ∧
        c.steps = c.thunks + c.pushes + c.nested ∧
        c.thunks + c.pushes ≤ c.steps ∧ c.steps ≤ c.thunks + 2 * c.pushes ∧
        ∀ limit,
          (c.steps ≤ limit → stepUpTo b limit t s = .returned (c.steps, .done v) s') ∧
          (limit < c.steps → ∃ u s'', stepUpTo b limit t s = .returned (limit, u) s'' ∧
            u.isDone = false)) ∧
    ∀ limit made v s', stepUpTo b limit t s = .returned (made, .done v) s' →
      Ends (fun n => t.run b n) s (.returned v s') := by
  refine ⟨fun n => runTallied_erased b n [] t, ?_, fun limit made v s' h => ends_of_stepUpTo b h⟩
  rintro v s' ⟨-, n, hn⟩
  change runWith b n [] t s = _ at hn
  rw [← runTallied_erased, map_eq_pure_bind] at hn
  obtain ⟨⟨u, c⟩, s'', htallied, hpure⟩ := Effect.returned_of_bind hn
  cases hpure
  obtain ⟨hlower, hupper⟩ := c.bounds
  refine ⟨c, ⟨rfl, n, htallied⟩, rfl, hlower, hupper, fun limit => ?_⟩
  have hleft : stepsLeft b n t s = .returned (u, c.steps) s' := by
    rw [stepsLeft, counted, map_eq_pure_bind]
    exact Effect.bind_of_returned _ htallied
  have hgo := go_of_stepsLeft b hleft limit 0
  simp only [Nat.zero_add] at hgo
  exact hgo

end Counting

/-- Work that runs three times, two continuations, of which one waits behind the other. -/
theorem nestedToTheLeft_exact :
    ∃ c : Tally, Ends (fun n => runTallied counting n [] nestedToTheLeft) 3 (.returned (15, c) 16) ∧
      ∀ limit, c.steps ≤ limit →
        stepUpTo counting limit nestedToTheLeft 3 = .returned (c.steps, .done 15) 16 := by
  obtain ⟨-, hreturns, -⟩ := stepUpTo_exact counting nestedToTheLeft 3
  obtain ⟨c, hc, -, -, -, hsteps⟩ := hreturns 15 16 ⟨rfl, 10, rfl⟩
  exact ⟨c, hc, fun limit => (hsteps limit).1⟩

example :
    runTallied counting 10 [] nestedToTheLeft 3 = .returned (15, ⟨3, 2, 1, by decide⟩) 16 ∧
      stepUpTo counting 100 nestedToTheLeft 3 = .returned (6, .done 15) 16 := ⟨rfl, rfl⟩

end Stepwise.Trampoline
