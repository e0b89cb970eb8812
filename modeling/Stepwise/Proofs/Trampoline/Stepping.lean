import Stepwise.Proofs.Trampoline.Closures

/-! # Single steps

A computation can be taken forward by hand, one `step` at a time, and left to `run` at any point. A step may
build continuations that a run never builds, and still the same closures run in the same order.

* `step_beside`: a step runs the closure that is due first, or it runs none and no number changes its place.
* `stepTimes_beside`: so after any number of steps the closures that are due and those that ran are all that
  were made, each one once, and the run from there on can be followed as in `runWith_beside`.
* `steps_then_run`: where a run comes to an end, steps and then a run come to the same end after the same
  closures, of which the steps run the first ones.
-/

namespace Stepwise.Trampoline
set_option autoImplicit false

open Effect (Agree Ends)

/-- A step only turns the nesting to the right. -/
def turns {τ κ σ α : Type} : Trampoline τ κ σ α → Bool
  | .andThen (.andThen _ _) _ => true
  | _ => false

section Stepping

variable {τ κ σ α : Type} (b : Meaning τ κ σ α)

/-- At most one closure runs, and none where the nesting is turned. -/
def RunsAtMostOne (u : Tracked τ κ σ α) (ws : σ × Journal) : Prop :=
  (u.step b.numbered ws).world.2.calls = ws.2.calls ∨
    u.turns = false ∧ ∃ id, (u.step b.numbered ws).world.2.calls = id :: ws.2.calls

/-! ## One step -/

theorem step_beside {t : Trampoline τ κ σ α} {ids : List Nat} {t' : Tracked τ κ σ α}
    (h : t.Numbers ids t') (s : σ) (j : Journal) :
    (∃ id rest, ids = id :: rest ∧ t'.turns = false ∧
      Beside (· = j.call id) (Advanced id rest j) (t.step b s) (t'.step b.numbered (s, j))) ∨
    ∃ u u', u.Numbers ids u' ∧ t.step b s = .returned u s ∧
      t'.step b.numbered (s, j) = .returned u' (s, j) := by
  cases h with
  | done v => exact Or.inr ⟨.done v, .done v, .done v, rfl, rfl⟩
  | more hwork =>
    obtain ⟨id, rest, rfl, hforce⟩ := force_beside b hwork s j
    exact Or.inl ⟨id, rest, rfl, rfl, hforce⟩
  | @andThen first next ids ids' first' next' hfirst hnext =>
    cases hfirst with
    | done v =>
      obtain ⟨id, rest, rfl, hresume⟩ := resume_beside b hnext v s j
      exact Or.inl ⟨id, rest, rfl, rfl, hresume⟩
    | more hwork =>
      obtain ⟨id, rest, rfl, hforce⟩ := force_beside b hwork s j
      refine Or.inl ⟨id, rest ++ ids', rfl, rfl, hforce.bind (fun _ h => h) ?_⟩
      rintro t t' s _ ⟨made, rfl, hnumbers⟩
      refine ⟨rfl, made, rfl, ?_⟩
      rw [← List.append_assoc]
      exact .andThen hnumbers hnext
    | andThen hfirst hinner =>
      -- what ran first still comes first
      refine Or.inr ⟨_, _, ?_, rfl, rfl⟩
      rw [List.append_assoc]
      exact .andThen hfirst (.compose hinner hnext)

theorem runsAtMostOne {t : Trampoline τ κ σ α} {ids : List Nat} {t' : Tracked τ κ σ α}
    (h : t.Numbers ids t') (s : σ) (j : Journal) : RunsAtMostOne b t' (s, j) := by
  rcases step_beside b h s j with ⟨id, rest, -, hturns, hstep⟩ | ⟨u, u', -, -, hstep⟩
  · refine Or.inr ⟨hturns, id, ?_⟩
    refine Beside.journal (R := fun j' => j'.calls = id :: j.calls) hstep ?_ ?_
    · rintro _ rfl
      rfl
    · rintro u u' _ ⟨made, rfl, -⟩
      rfl
  · exact Or.inl (by rw [hstep]; rfl)

/-! ## Some steps -/

/-- The numbered computation after some steps. -/
def Continues (j : Journal) (u : Trampoline τ κ σ α) (u' : Tracked τ κ σ α) (j' : Journal) : Prop :=
  j.calls <:+ j'.calls ∧ ∃ ids, u.Numbers ids u' ∧ j'.Linear ids

theorem stepTimes_beside (count : Nat) {t : Trampoline τ κ σ α} {ids : List Nat}
    {t' : Tracked τ κ σ α} (h : t.Numbers ids t') (s : σ) {j : Journal} (hj : j.Linear ids) :
    Beside (fun j' => j'.AtMostOnce ∧ j.calls <:+ j'.calls) (Continues j) (stepTimes b count t s)
      (stepTimes b.numbered count t' (s, j)) := by
  induction count generalizing t t' ids s j with
  | zero => exact ⟨rfl, List.suffix_rfl, ids, h, hj⟩
  | succ count ih =>
    rw [stepTimes, stepTimes]
    rcases step_beside b h s j with ⟨id, rest, rfl, -, hstep⟩ | ⟨u, u', hu, hstep, hstep'⟩
    · have hgrows : j.calls <:+ id :: j.calls := List.suffix_cons id j.calls
      refine hstep.bind ?_ ?_
      · rintro _ rfl
        exact ⟨hj.call.atMostOnce, hgrows⟩
      · rintro t t' s _ ⟨made, rfl, hnumbers⟩
        refine (ih hnumbers s (hj.next made)).mono ?_ ?_
        · exact fun j' hj' => ⟨hj'.1, hgrows.trans hj'.2⟩
        · exact fun u u' j' hj' => ⟨hgrows.trans hj'.1, hj'.2⟩
    · rw [Effect.bind_of_returned _ hstep, Effect.bind_of_returned _ hstep']
      exact ih hu s hj

/-- What ran in the steps ran first. -/
theorem stepTimes_calls {t : Trampoline τ κ σ α} {s : σ} {e : Ending (σ × Journal) α} {count : Nat}
    (h : Ends (fun n => stepTimes b.numbered count (t.numbered 0) >>= run b.numbered n)
      (s, t.journal) e) :
    (stepTimes b.numbered count (t.numbered 0) (s, t.journal)).world.2.calls <:+
      e.world.2.calls := by
  have hsteps := stepTimes_beside b count (t.numbers_numbered 0) s t.linear_journal
  obtain ⟨hcut, n, rfl⟩ := h
  obtain ⟨u, s', u', j, -, hs', -, ids, hnumbers, hlinear⟩ | ⟨reason, s', j, -, hs', -⟩ |
    ⟨s', j, -, hs', -⟩ := hsteps.endings
  · have hdue : j.Linear (ids ++ []) := by
      rw [List.append_nil]
      exact hlinear
    have hrun := runWith_beside b n hnumbers .nil s' hdue
    simp only [Effect.bind_of_returned _ hs', hs']
    exact hrun.journal (fun _ h => h.2) fun _ _ _ h => h.2.2
  · simp only [Effect.bind_of_broken _ hs', hs']
    exact List.suffix_rfl
  · simp only [Effect.bind_of_cut _ hs', Ending.isCut_cut, reduceCtorEq] at hcut

/-- Steps and then a run come to what the run alone comes to: to the same value in the same world after the same
closures, each of which runs once. The steps run the first of them, each step at most one. -/
theorem steps_then_run (t : Trampoline τ κ σ α) (s : σ) (e : Ending σ α)
    (h : Ends (fun n => t.run b n) s e) :
    ∃ e', Recorded t.journal e e' ∧
      Ends (fun n => (t.numbered 0).run b.numbered n) (s, t.journal) e' ∧
      ∀ count,
        Ends (fun n => stepTimes b count t >>= run b n) s e ∧
        Ends (fun n => stepTimes b.numbered count (t.numbered 0) >>= run b.numbered n)
          (s, t.journal) e' ∧
        Beside (fun j => j.calls <:+ e'.world.2.calls)
          (fun _ u' j => j.calls <:+ e'.world.2.calls ∧ ∀ s, RunsAtMostOne b u' (s, j))
          (stepTimes b count t s) (stepTimes b.numbered count (t.numbered 0) (s, t.journal)) := by
  obtain ⟨hcut, n, rfl⟩ := h
  have hrecorded := run_recorded b t n s
  have hends : Ends (fun n => (t.numbered 0).run b.numbered n) (s, t.journal)
      ((t.numbered 0).run b.numbered n (s, t.journal)) := ⟨hrecorded.isCut.trans hcut, n, rfl⟩
  refine ⟨_, hrecorded, hends, fun count => ?_⟩
  have hstepped := (stepTimes_agrees_run b.numbered count (t.numbered 0) _ _).2 hends
  have hsuffix := stepTimes_calls b hstepped
  refine ⟨(stepTimes_agrees_run b count t s _).2 ⟨hcut, n, rfl⟩, hstepped, ?_⟩
  refine (stepTimes_beside b count (t.numbers_numbered 0) s t.linear_journal).inWorld.mono ?_ ?_
  · rintro j ⟨-, hworld⟩
    rw [hworld] at hsuffix
    exact hsuffix
  · rintro u u' j ⟨⟨-, ids, hnumbers, -⟩, hworld⟩
    rw [hworld] at hsuffix
    exact ⟨hsuffix, fun s => runsAtMostOne b hnumbers s j⟩

end Stepping

/-- Work that counts up, and a continuation that counts up once more. -/
def counting : Meaning Unit Unit Nat Nat where
  thunk _ := fun n => .returned (.done n) (n + 1)
  cont _ v := fun n => .returned (.more (.call ())) (n + v)

def nestedToTheLeft : Trampoline Unit Unit Nat Nat :=
  .andThen (.andThen (.more (.call ())) (.call ())) (.call ())

theorem nestedToTheLeft_steps_then_run :
    ∃ e', Recorded nestedToTheLeft.journal (.returned 15 16) e' ∧
      Ends (fun n => (nestedToTheLeft.numbered 0).run counting.numbered n)
        (3, nestedToTheLeft.journal) e' ∧
      ∀ count,
        Ends (fun n => stepTimes counting count nestedToTheLeft >>= run counting n) 3
          (.returned 15 16) ∧
        Ends (fun n => stepTimes counting.numbered count (nestedToTheLeft.numbered 0) >>=
          run counting.numbered n) (3, nestedToTheLeft.journal) e' ∧
        Beside (fun j => j.calls <:+ e'.world.2.calls)
          (fun _ u' j => j.calls <:+ e'.world.2.calls ∧ ∀ s, RunsAtMostOne counting u' (s, j))
          (stepTimes counting count nestedToTheLeft 3)
          (stepTimes counting.numbered count (nestedToTheLeft.numbered 0)
            (3, nestedToTheLeft.journal)) :=
  steps_then_run counting nestedToTheLeft 3 _ ⟨rfl, 10, rfl⟩

end Stepwise.Trampoline
