import Stepwise.Trampoline
import Stepwise.Proofs.Fuel

/-! # Evaluating a computation by recursion

`eval` is the recursion that a trampoline stands for: to evaluate a computation with a continuation, evaluate
the first part, give its value to the continuation and evaluate what that gives. It has no list of
continuations that wait.

* `runWith_reaches_eval`: by induction on the fuel of the recursion, whatever continuations wait. A run
  evaluates the computation first, in some number of turns, and goes on with the value.
* `runWith_below_eval`: by induction on the turns of a run. Where a run comes to an end, the recursion does so,
  followed by the continuations that wait.
* `run_agrees_eval` puts both together; `stepTimes_agrees_eval` says that single steps made before do not
  matter, and `stepTimes_agrees_run` that one may change from steps to a run at any point.
-/

namespace Stepwise.Trampoline
set_option autoImplicit false

open Effect (Below Agree Ends)

variable {τ κ σ α : Type}

/-- Evaluate a computation by recursion. The fuel bounds the depth of the recursion. -/
def eval (b : Meaning τ κ σ α) : Nat → Trampoline τ κ σ α → Effect σ α
  | 0, _ => Effect.cut
  | _ + 1, .done v => pure v
  | fuel + 1, .more work => do
    let t ← b.force work
    eval b fuel t
  | fuel + 1, .andThen first next => do
    let v ← eval b fuel first
    let t ← b.resume next v
    eval b fuel t

/-- Make a number of single steps. -/
def stepTimes (b : Meaning τ κ σ α) : Nat → Trampoline τ κ σ α → Effect σ (Trampoline τ κ σ α)
  | 0, t => pure t
  | n + 1, t => do
    let t ← t.step b
    stepTimes b n t

/-- Give a value to the continuations that wait, one after the other. -/
def evalThrough (b : Meaning τ κ σ α) (fuel : Nat) (waiting : List (Cont κ σ α)) (v : α) : Effect σ α :=
  waiting.foldlM (fun v next => do
    let t ← b.resume next v
    eval b fuel t) v

section Evaluation

variable (b : Meaning τ κ σ α)

theorem eval_more (fuel : Nat) (work : Thunk τ κ σ α) :
    eval b (fuel + 1) (.more work) = b.force work >>= eval b fuel := rfl

theorem eval_andThen (fuel : Nat) (first : Trampoline τ κ σ α) (next : Cont κ σ α) :
    eval b (fuel + 1) (first.andThen next) =
      eval b fuel first >>= fun v => b.resume next v >>= eval b fuel := rfl

theorem evalThrough_cons (fuel : Nat) (next : Cont κ σ α) (waiting : List (Cont κ σ α)) (v : α) :
    evalThrough b fuel (next :: waiting) v =
      (b.resume next v >>= eval b fuel) >>= evalThrough b fuel waiting := by
  rw [evalThrough, List.foldlM_cons]
  rfl

/-! ## More fuel -/

theorem eval_below {n n' : Nat} (hn : n ≤ n') (t : Trampoline τ κ σ α) :
    (eval b n t).Below (eval b n' t) := by
  induction n generalizing n' t with
  | zero => exact Below.cut _
  | succ n ih =>
    obtain ⟨n', rfl⟩ : ∃ m, n' = m + 1 := ⟨n' - 1, by omega⟩
    have hn' : n ≤ n' := by omega
    cases t with
    | done v => exact Below.refl _
    | more work => exact (Below.refl _).bind fun t => ih hn' t
    | andThen first next =>
      exact (ih hn' first).bind fun v => (Below.refl _).bind fun t => ih hn' t

theorem evalThrough_below {n n' : Nat} (hn : n ≤ n') (waiting : List (Cont κ σ α)) (v : α) :
    (evalThrough b n waiting v).Below (evalThrough b n' waiting v) := by
  induction waiting generalizing v with
  | nil => exact Below.refl _
  | cons next waiting ih =>
    rw [evalThrough_cons, evalThrough_cons]
    exact ((Below.refl _).bind fun t => eval_below b hn t).bind ih

/-! ## A run evaluates -/

/-- After some number of turns `run` is where `m` has given its value to the continuations that wait. -/
def Reaches (run : Nat → List (Cont κ σ α) → Effect σ α) (m : Effect σ α) (s : σ) : Prop :=
  ∃ turns, ∀ fuel waiting,
    run (fuel + turns) waiting s = (m >>= fun v => runWith b fuel waiting (.done v)) s

namespace Reaches

variable {b}

theorem after {run run' : Nat → List (Cont κ σ α) → Effect σ α} {m : Effect σ α} {s : σ}
    (h : Reaches b run m s) (turns : Nat)
    (hrun : ∀ fuel waiting, run' (fuel + turns) waiting s = run fuel waiting s) : Reaches b run' m s := by
  obtain ⟨more, hmore⟩ := h
  refine ⟨more + turns, fun fuel waiting => ?_⟩
  rw [← Nat.add_assoc, hrun]
  exact hmore fuel waiting

theorem bind {A : Type} {m : Effect σ A} {k : A → Effect σ α} {s : σ} (h : ((m >>= k) s).isCut = false)
    {run : A → Nat → List (Cont κ σ α) → Effect σ α}
    (hk : ∀ a s, (k a s).isCut = false → Reaches b (run a) (k a) s) :
    Reaches b (fun fuel waiting => m >>= fun a => run a fuel waiting) (m >>= k) s := by
  cases hm : m s with
  | cut s' => rw [Effect.bind_of_cut _ hm] at h; cases h
  | broken reason s' =>
    refine ⟨0, fun fuel waiting => ?_⟩
    change (m >>= fun a => run a fuel waiting) s = _
    rw [bind_assoc, Effect.bind_of_broken _ hm, Effect.bind_of_broken _ hm]
  | returned a s' =>
    rw [Effect.bind_of_returned _ hm] at h
    obtain ⟨turns, hturns⟩ := hk a s' h
    refine ⟨turns, fun fuel waiting => ?_⟩
    change (m >>= fun a => run a (fuel + turns) waiting) s = _
    rw [bind_assoc, Effect.bind_of_returned _ hm, Effect.bind_of_returned _ hm]
    exact hturns fuel waiting

end Reaches

theorem runWith_reaches_eval (n : Nat) (t : Trampoline τ κ σ α) (s : σ) (h : (eval b n t s).isCut = false) :
    Reaches b (fun fuel waiting => runWith b fuel waiting t) (eval b n t) s := by
  induction n generalizing t s with
  | zero => cases h
  | succ n ih =>
    cases t with
    | done v => exact ⟨0, fun fuel waiting => rfl⟩
    | more work =>
      rw [eval_more] at h ⊢
      refine (Reaches.bind h ih).after 1 fun fuel waiting => ?_
      rw [runWith_more]
    | andThen first next =>
      rw [eval_andThen] at h ⊢
      -- the continuation waits while the first part is evaluated, and then gets its value
      have hnext : ∀ v s, ((b.resume next v >>= eval b n) s).isCut = false →
          Reaches b (fun fuel waiting => runWith b fuel (next :: waiting) (.done v))
            (b.resume next v >>= eval b n) s := by
        intro v s h
        refine (Reaches.bind h ih).after 1 fun fuel waiting => ?_
        rw [runWith_done_cons]
      obtain ⟨turns, hfirst⟩ := ih first s (Effect.isCut_of_bind h)
      refine (Reaches.bind h hnext).after (turns + 1) fun fuel waiting => ?_
      rw [← Nat.add_assoc, runWith_andThen]
      exact hfirst fuel (next :: waiting)

theorem runWith_below_eval (fuel : Nat) (waiting : List (Cont κ σ α)) (t : Trampoline τ κ σ α) :
    (runWith b fuel waiting t).Below (eval b (fuel + 1) t >>= evalThrough b (fuel + 1) waiting) := by
  induction fuel generalizing waiting t with
  | zero =>
    cases t with
    | done v =>
      cases waiting with
      | nil => exact Below.refl _
      | cons next waiting => exact Below.cut _
    | more work => exact Below.cut _
    | andThen first next => exact Below.cut _
  | succ fuel ih =>
    have hle : fuel + 1 ≤ fuel + 2 := by omega
    -- what the induction gives, with the fuel that the evaluation of `t` has
    have hrest : ∀ waiting t, (runWith b fuel waiting t).Below
        (eval b (fuel + 1) t >>= evalThrough b (fuel + 2) waiting) := fun waiting t =>
      (ih waiting t).trans ((Below.refl _).bind fun v => evalThrough_below b hle waiting v)
    cases t with
    | done v =>
      cases waiting with
      | nil => exact Below.refl _
      | cons next waiting =>
        change (b.resume next v >>= runWith b fuel waiting).Below (evalThrough b (fuel + 2) _ v)
        rw [evalThrough_cons, bind_assoc]
        refine (Below.refl _).bind fun t => (hrest waiting t).trans ?_
        exact (eval_below b hle t).bind fun v => Below.refl _
    | more work =>
      rw [runWith_more, eval_more, bind_assoc]
      exact (Below.refl _).bind fun t => hrest waiting t
    | andThen first next =>
      rw [runWith_andThen, eval_andThen, bind_assoc]
      refine (ih (next :: waiting) first).trans ((Below.refl _).bind fun v => ?_)
      rw [evalThrough_cons]
      exact (Below.refl _).bind fun v => evalThrough_below b hle waiting v

theorem run_agrees_eval (t : Trampoline τ κ σ α) :
    Agree (fun n => t.run b n) fun n => eval b n t := by
  intro s e
  constructor
  · refine Ends.of_below fun n => ⟨n + 1, ?_⟩
    have hrun := runWith_below_eval b n [] t
    have hnil : evalThrough b (n + 1) [] = pure := rfl
    rw [hnil, bind_pure] at hrun
    exact hrun
  · rintro ⟨hcut, n, rfl⟩
    obtain ⟨turns, hturns⟩ := runWith_reaches_eval b n t s hcut
    refine ⟨hcut, 0 + turns, ?_⟩
    have hrun := hturns 0 []
    have hnil : (fun v => runWith b 0 [] (.done v)) = pure := rfl
    rw [hnil, bind_pure] at hrun
    exact hrun

/-! ## Single steps -/

/-- Evaluation after a step has no need of more fuel than one unit above that of the whole. -/
theorem eval_below_step (n : Nat) (t : Trampoline τ κ σ α) :
    (eval b n t).Below (t.step b >>= eval b (n + 1)) := by
  cases n with
  | zero => exact Below.cut _
  | succ n =>
    cases t with
    | done v => exact Below.refl _
    | more work => exact (Below.refl _).bind fun t => eval_below b (by omega) t
    | andThen first next =>
      cases first with
      | done v =>
        cases n with
        | zero => exact Below.cut _
        | succ n => exact (Below.refl _).bind fun t => eval_below b (by omega) t
      | more work =>
        cases n with
        | zero => exact Below.cut _
        | succ n =>
          rw [eval_andThen, eval_more, step]
          simp only [bind_assoc, pure_bind]
          refine (Below.refl _).bind fun t => (eval_below b (by omega) t).bind fun v => ?_
          exact (Below.refl _).bind fun t => eval_below b (by omega) t
      | andThen first inner =>
        cases n with
        | zero => exact Below.cut _
        | succ n =>
          rw [eval_andThen, eval_andThen, step]
          simp only [pure_bind, eval_andThen, Meaning.resume, bind_assoc]
          refine (eval_below b (by omega) first).bind fun v => (Below.refl _).bind fun t => ?_
          exact (eval_below b (by omega) t).bind fun v => Below.refl _

theorem step_below_eval (n : Nat) (t : Trampoline τ κ σ α) :
    (t.step b >>= eval b n).Below (eval b (n + 2) t) := by
  cases t with
  | done v => exact eval_below b (by omega) (.done v)
  | more work => exact (Below.refl _).bind fun t => eval_below b (by omega) t
  | andThen first next =>
    cases first with
    | done v => exact (Below.refl _).bind fun t => eval_below b (by omega) t
    | more work =>
      rw [eval_andThen, eval_more, step]
      simp only [bind_assoc, pure_bind]
      refine (Below.refl _).bind fun t => ?_
      cases n with
      | zero => exact Below.cut _
      | succ n =>
        refine (eval_below b (by omega) t).bind fun v => ?_
        exact (Below.refl _).bind fun t => eval_below b (by omega) t
    | andThen first inner =>
      cases n with
      | zero => exact Below.cut _
      | succ n =>
        rw [eval_andThen, eval_andThen, step]
        simp only [pure_bind, eval_andThen, Meaning.resume, bind_assoc]
        refine (eval_below b (by omega) first).bind fun v => (Below.refl _).bind fun t => ?_
        cases n with
        | zero => exact Below.cut _
        | succ n =>
          refine (eval_below b (by omega) t).bind fun v => ?_
          exact (Below.refl _).bind fun t => eval_below b (by omega) t

theorem step_agrees_eval (t : Trampoline τ κ σ α) :
    Agree (fun n => t.step b >>= eval b n) fun n => eval b n t :=
  Agree.of_below (fun n => ⟨n + 2, step_below_eval b n t⟩) fun n => ⟨n + 1, eval_below_step b n t⟩

theorem stepTimes_agrees_eval (count : Nat) (t : Trampoline τ κ σ α) :
    Agree (fun n => stepTimes b count t >>= eval b n) fun n => eval b n t := by
  induction count generalizing t with
  | zero => exact Agree.refl _
  | succ count ih =>
    have hrest := Agree.after (t.step b) fun t => ih t
    simp only [stepTimes, bind_assoc]
    exact hrest.trans (step_agrees_eval b t)

/-- Single steps and then a run come to what the run alone comes to. -/
theorem stepTimes_agrees_run (count : Nat) (t : Trampoline τ κ σ α) :
    Agree (fun n => stepTimes b count t >>= run b n) fun n => t.run b n := by
  have hrun := Agree.after (stepTimes b count t) fun t => run_agrees_eval b t
  exact hrun.trans ((stepTimes_agrees_eval b count t).trans (run_agrees_eval b t).symm)

end Evaluation

end Stepwise.Trampoline
