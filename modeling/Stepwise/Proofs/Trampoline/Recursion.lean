import Stepwise.Proofs.Trampoline.Counting

/-! # Handing over the calls of a recursion

A recursion that calls itself is turned into one that hands the calls over: each call is work, and what is done with
its result is a continuation.

* `Recursion` says what is done with an argument: there is a value, or a call, whose result is the result, or goes
  into a function, or decides how to go on. What is done next is named, as in a `Trampoline`, so it may be any
  function of the result. Functions that call each other are one recursion, with a tag in the argument.
* `direct` makes the calls; its fuel bounds the depth. `recurse` hands them over.
* `finish_below_eval` and `eval_below_finish` compare the two by induction on the fuel, one case for each form of a
  body. What waits on the list of a run never enters, because `eval` has no such list.
* `recursion_agrees`: a run of what is handed over comes to what the direct recursion comes to, and single steps come
  to its value.
-/

namespace Stepwise.Trampoline
set_option autoImplicit false

open Effect (Agree Below Ends)

/-- What a recursion does with an argument. -/
inductive Body (A K V σ : Type)
  | value (v : V)
  /-- The result of the call is the result. -/
  | call (a : A)
  /-- The result of the call goes into a function. -/
  | callMap (a : A) (f : V → Effect σ V)
  /-- What is done next is chosen from the result of the call. -/
  | callThen (a : A) (next : K)

structure Recursion (A K V σ : Type) where
  body : A → Effect σ (Body A K V σ)
  /-- What is done next with a result. -/
  further : K → V → Effect σ (Body A K V σ)

namespace Recursion

variable {A K V σ : Type} (r : Recursion A K V σ)

/-! ## Two ways to compute it -/

/-- Make the calls of a body, and do with their results what is to be done. -/
def finish : Nat → Body A K V σ → Effect σ V
  | 0, _ => Effect.cut
  | _ + 1, .value v => pure v
  | n + 1, .call a => do
    let body ← r.body a
    finish n body
  | n + 1, .callMap a f => do
    let body ← r.body a
    let v ← finish n body
    f v
  | n + 1, .callThen a next => do
    let body ← r.body a
    let v ← finish n body
    let rest ← r.further next v
    finish n rest

/-- The recursion that makes its calls. -/
def direct (n : Nat) (a : A) : Effect σ V := do
  let body ← r.body a
  r.finish n body

/-- Hand the call of a body over. -/
def handOver : Body A K V σ → Effect σ (Trampoline A K σ V)
  | .value v => pure (.done v)
  | .call a => pure (.more (.call a))
  | .callMap a f => (Trampoline.more (.call a)).map f
  | .callThen a next => pure ((Trampoline.more (.call a)).continueWith (.call next))

/-- The recursion that hands its calls over. -/
def recurse (a : A) : Effect σ (Trampoline A K σ V) := do
  let body ← r.body a
  handOver body

/-- A call that was handed over is a call of the recursion that hands its calls over. -/
def meaning : Meaning A K σ V where
  thunk := r.recurse
  cont next v := do
    let rest ← r.further next v
    handOver rest

/-! ## Both compute the same -/

theorem finish_callMap (n : Nat) (a : A) (f : V → Effect σ V) :
    r.finish (n + 1) (.callMap a f) = r.direct n a >>= f := (bind_assoc _ _ _).symm

theorem finish_callThen (n : Nat) (a : A) (next : K) :
    r.finish (n + 1) (.callThen a next) = r.direct n a >>= fun v => r.further next v >>= r.finish n :=
  (bind_assoc _ _ _).symm

/-- The evaluation of a call that was handed over. -/
theorem eval_call (n : Nat) (a : A) :
    eval r.meaning (n + 1) (.more (.call a)) = r.body a >>= fun body => handOver body >>= eval r.meaning n := by
  rw [eval_more, ← bind_assoc]
  rfl

theorem eval_callMap (n : Nat) (a : A) (f : V → Effect σ V) :
    handOver (.callMap a f) >>= eval r.meaning (n + 2) = eval r.meaning (n + 1) (.more (.call a)) >>= f := by
  change eval r.meaning (n + 2) (.andThen (.more (.call a)) (.mapping f)) = _
  rw [eval_andThen]
  refine bind_congr fun v => ?_
  rw [Meaning.resume, bind_assoc]
  exact bind_pure (f v)

theorem eval_callThen (n : Nat) (a : A) (next : K) :
    handOver (.callThen a next) >>= eval r.meaning (n + 1) =
      eval r.meaning n (.more (.call a)) >>= fun v =>
        r.further next v >>= fun rest => handOver rest >>= eval r.meaning n := by
  change eval r.meaning (n + 1) (.andThen (.more (.call a)) (.call next)) = _
  rw [eval_andThen]
  exact bind_congr fun v => bind_assoc (r.further next v) handOver (eval r.meaning n)

theorem handOver_eval_below {n n' : Nat} (hn : n ≤ n') (body : Body A K V σ) :
    (handOver body >>= eval r.meaning n).Below (handOver body >>= eval r.meaning n') :=
  (Below.refl _).bind fun t => eval_below r.meaning hn t

/-- One call of the direct recursion takes two units of the fuel of the evaluation. -/
theorem finish_below_eval (n : Nat) (body : Body A K V σ) :
    (r.finish n body).Below (handOver body >>= eval r.meaning (2 * n)) := by
  induction n generalizing body with
  | zero => exact Below.cut _
  | succ n ih =>
    have hcall : ∀ a, (r.direct n a).Below (eval r.meaning (2 * n + 1) (.more (.call a))) := by
      intro a
      rw [eval_call]
      exact (Below.refl _).bind ih
    cases body with
    | value v => exact Below.refl _
    | call a => exact (hcall a).trans (eval_below r.meaning (Nat.le_succ _) _)
    | callMap a f =>
      change (r.finish (n + 1) (.callMap a f)).Below (handOver (.callMap a f) >>= eval r.meaning (2 * n + 2))
      rw [finish_callMap, eval_callMap]
      exact (hcall a).bind fun v => Below.refl _
    | callThen a next =>
      change (r.finish (n + 1) (.callThen a next)).Below (handOver (.callThen a next) >>= eval r.meaning (2 * n + 2))
      rw [finish_callThen, eval_callThen]
      refine (hcall a).bind fun v => (Below.refl _).bind fun rest => ?_
      exact (ih rest).trans (r.handOver_eval_below (Nat.le_succ _) rest)

theorem eval_below_finish (n : Nat) (body : Body A K V σ) :
    (handOver body >>= eval r.meaning n).Below (r.finish n body) := by
  induction n generalizing body with
  | zero => cases body <;> exact Below.cut _
  | succ n ih =>
    have hcall : ∀ a, (eval r.meaning n (.more (.call a))).Below (r.direct n a) := by
      intro a
      cases n with
      | zero => exact Below.cut _
      | succ n =>
        rw [eval_call]
        exact (Below.refl _).bind fun body => (r.handOver_eval_below (Nat.le_succ n) body).trans (ih body)
    cases body with
    | value v => exact Below.refl _
    | call a =>
      change (eval r.meaning (n + 1) (.more (.call a))).Below (r.direct n a)
      rw [eval_call]
      exact (Below.refl _).bind ih
    | callMap a f =>
      rw [finish_callMap]
      cases n with
      | zero => exact Below.cut _
      | succ n =>
        rw [eval_callMap]
        exact (hcall a).bind fun v => Below.refl _
    | callThen a next =>
      rw [finish_callThen, eval_callThen]
      exact (hcall a).bind fun v => (Below.refl _).bind ih

theorem eval_agrees_direct (a : A) :
    Agree (fun n => r.recurse a >>= eval r.meaning n) fun n => r.direct n a := by
  have hrecurse : ∀ n, r.recurse a >>= eval r.meaning n =
      r.body a >>= fun body => handOver body >>= eval r.meaning n := fun n => bind_assoc _ _ _
  refine Agree.of_below (fun n => ⟨n, ?_⟩) fun n => ⟨2 * n, ?_⟩
  · rw [hrecurse]
    exact (Below.refl _).bind fun body => r.eval_below_finish n body
  · rw [hrecurse]
    exact (Below.refl _).bind fun body => r.finish_below_eval n body

theorem run_agrees_direct (a : A) : Agree (fun n => r.recurse a >>= run r.meaning n) fun n => r.direct n a :=
  (Agree.after (r.recurse a) fun t => run_agrees_eval r.meaning t).trans (r.eval_agrees_direct a)

end Recursion

/-! ## Single steps -/

section Steps

variable {τ κ σ α : Type} (b : Meaning τ κ σ α)

/-- Where a run returns, some number of single steps completes the computation with its value. -/
theorem stepUpTo_of_ends {t : Trampoline τ κ σ α} {s s' : σ} {v : α}
    (h : Ends (fun n => t.run b n) s (.returned v s')) :
    ∃ count, ∀ limit, count ≤ limit → stepUpTo b limit t s = .returned (count, .done v) s' := by
  obtain ⟨-, n, hn⟩ := h
  change runWith b n [] t s = _ at hn
  rw [← runTallied_erased, map_eq_pure_bind] at hn
  obtain ⟨⟨u, c⟩, s'', htallied, hpure⟩ := Effect.returned_of_bind hn
  cases hpure
  have hleft : stepsLeft b n t s = .returned (u, c.steps) s' := by
    rw [stepsLeft, counted, map_eq_pure_bind]
    exact Effect.bind_of_returned _ htallied
  refine ⟨c.steps, fun limit hle => ?_⟩
  have hgo := (go_of_stepsLeft b hleft limit 0).1 hle
  rw [Nat.zero_add] at hgo
  exact hgo

end Steps

namespace Recursion

variable {A K V σ : Type} (r : Recursion A K V σ)

/-- What is handed over is computed as the direct recursion computes it: a run comes to the same value after the same
effects, and to an end only where the recursion does so, and single steps come to that value. -/
theorem recursion_agrees (a : A) :
    Agree (fun n => r.recurse a >>= run r.meaning n) (fun n => r.direct n a) ∧
      ∀ s v s', Ends (fun n => r.direct n a) s (.returned v s') →
        Ends (fun n => r.recurse a >>= run r.meaning n) s (.returned v s') ∧
          ∃ count, ∀ limit, count ≤ limit →
            (r.recurse a >>= stepUpTo r.meaning limit) s = .returned (count, .done v) s' := by
  have hagree := r.run_agrees_direct a
  refine ⟨hagree, fun s v s' h => ?_⟩
  have hrun := (hagree s _).2 h
  refine ⟨hrun, ?_⟩
  obtain ⟨-, n, hn⟩ := hrun
  obtain ⟨t, s₁, hrecurse, ht⟩ := Effect.returned_of_bind hn
  obtain ⟨count, hcount⟩ := stepUpTo_of_ends r.meaning ⟨rfl, n, ht⟩
  refine ⟨count, fun limit hle => ?_⟩
  rw [Effect.bind_of_returned _ hrecurse]
  exact hcount limit hle

/-- Two sequences of numbers that call each other, also on their own results. The tag tells which one is called. -/
def crossed : Recursion (Bool × Nat) (Bool × Nat) Nat Unit where
  body
    | (tag, 0) => pure (.value tag.toNat)
    | (tag, n + 1) => pure (.callThen (tag, n) (!tag, n + 1))
  further next v := pure (.callMap (next.1, v) fun w => pure (next.2 - w))

theorem crossed_agrees :
    Ends (fun n => crossed.direct n (true, 7)) () (.returned 5 ()) ∧
      Ends (fun n => crossed.recurse (true, 7) >>= run crossed.meaning n) () (.returned 5 ()) ∧
      ∃ count, ∀ limit, count ≤ limit →
        (crossed.recurse (true, 7) >>= stepUpTo crossed.meaning limit) () = .returned (count, .done 5) () := by
  have hdirect : Ends (fun n => crossed.direct n (true, 7)) () (.returned 5 ()) := ⟨rfl, 20, rfl⟩
  exact ⟨hdirect, (crossed.recursion_agrees (true, 7)).2 () 5 () hdirect⟩

end Recursion

end Stepwise.Trampoline
