import Mathlib.Logic.Function.Basic
import Stepwise.Proofs.Alike

/-! # Several computations

A crew is any number of computations that are made, polled and dropped in any order, with anything else done in
between. By induction on what is done, members that are alike may stand in for each other: what they answer and
what they leave in the world is the same (`Crew.run_eq`).
-/

namespace Stepwise
set_option autoImplicit false

variable {W : Type}

/-- What is done with the computations of a crew. -/
inductive Deed (W : Type) {ι : Type} (M : ι → Type)
  | make (i : ι) (m : M i)
  | poll (i : ι)
  | drop (i : ι)
  /-- Anything else that happens in the world. -/
  | other (e : Effect W Unit)

namespace Crew

variable {ι : Type} [DecidableEq ι] {M F F' β : ι → Type}

/-- The answers of all polls, in their order. A member that has resolved is not polled any more. -/
def run (make : ∀ i, M i → Effect W (F i)) (poll : ∀ i, Poller W (F i) (β i)) :
    List (Deed W M) → (∀ i, Option (F i)) → Effect W (List (Σ i, Poll (β i)))
  | [], _ => pure []
  | .make i m :: deeds, crew => do
    let x ← make i m
    run make poll deeds (Function.update crew i (some x))
  | .drop i :: deeds, crew => run make poll deeds (Function.update crew i none)
  | .other e :: deeds, crew => do
    e
    run make poll deeds crew
  | .poll i :: deeds, crew =>
    match crew i with
    | none => run make poll deeds crew
    | some x => do
      let (answer, x) ← poll i x
      let left := match answer with
        | .pending => some x
        | _ => none
      let rest ← run make poll deeds (Function.update crew i left)
      pure (⟨i, answer⟩ :: rest)

variable {make : ∀ i, M i → Effect W (F i)} {poll : ∀ i, Poller W (F i) (β i)}
  {make' : ∀ i, M i → Effect W (F' i)} {poll' : ∀ i, Poller W (F' i) (β i)}

/-- The rest of a run after a poll of a member. -/
def runAfter (make : ∀ i, M i → Effect W (F i)) (poll : ∀ i, Poller W (F i) (β i)) (deeds : List (Deed W M))
    (crew : ∀ i, Option (F i)) (i : ι) (s : Resolution (β i) ⊕ F i) : Effect W (List (Σ i, Poll (β i))) := do
  let (answer, left) := match s with
    | .inl r => (r.answer, none)
    | .inr x => (.pending, some x)
  let rest ← run make poll deeds (Function.update crew i left)
  pure (⟨i, answer⟩ :: rest)

theorem run_poll_of_some (deeds : List (Deed W M)) {crew : ∀ i, Option (F i)} {i : ι} {x : F i}
    (h : crew i = some x) : run make poll (.poll i :: deeds) crew =
      (poll i).stage x >>= runAfter make poll deeds crew i := by
  rw [run, h, Poller.stage, bind_assoc]
  refine bind_congr fun r => ?_
  obtain ⟨answer, x⟩ := r
  cases answer <;> rfl

/-- Whether the two members are there, and alike. -/
def Match (poll : ∀ i, Poller W (F i) (β i)) (poll' : ∀ i, Poller W (F' i) (β i))
    (crew : ∀ i, Option (F i)) (crew' : ∀ i, Option (F' i)) : Prop :=
  ∀ i, Option.Rel ((poll i).Alike (poll' i)) (crew i) (crew' i)

theorem Match.update {crew : ∀ i, Option (F i)} {crew' : ∀ i, Option (F' i)} (h : Match poll poll' crew crew')
    {i : ι} {x : Option (F i)} {x' : Option (F' i)} (hx : Option.Rel ((poll i).Alike (poll' i)) x x') :
    Match poll poll' (Function.update crew i x) (Function.update crew' i x') := by
  intro j
  by_cases hj : j = i
  · subst hj
    rw [Function.update_self, Function.update_self]
    exact hx
  · rw [Function.update_of_ne hj, Function.update_of_ne hj]
    exact h j

theorem runAfter_eq {deeds : List (Deed W M)} (hdeeds : ∀ {crew crew'}, Match poll poll' crew crew' →
      run make poll deeds crew = run make' poll' deeds crew')
    {crew : ∀ i, Option (F i)} {crew' : ∀ i, Option (F' i)} (h : Match poll poll' crew crew') {i : ι}
    {s : Resolution (β i) ⊕ F i} {s' : Resolution (β i) ⊕ F' i}
    (hs : Sum.LiftRel Eq ((poll i).Alike (poll' i)) s s') :
    runAfter make poll deeds crew i s = runAfter make' poll' deeds crew' i s' := by
  cases hs with
  | inl hr =>
    subst hr
    simp only [runAfter]
    rw [hdeeds (h.update .none)]
  | inr hxy =>
    simp only [runAfter]
    rw [hdeeds (h.update (.some hxy))]

/-- Whatever is done with two crews whose members are alike, they give the same answers and do the same in
the world. -/
theorem run_eq
    (hmake : ∀ i m, Effect.Paired Equal ((poll i).AlikeAt (poll' i)) (make i m) (make' i m))
    (deeds : List (Deed W M)) {crew : ∀ i, Option (F i)} {crew' : ∀ i, Option (F' i)}
    (h : Match poll poll' crew crew') :
    run make poll deeds crew = run make' poll' deeds crew' := by
  induction deeds generalizing crew crew' with
  | nil => rfl
  | cons deed deeds ih =>
    cases deed with
    | make i m =>
      refine Effect.Paired.eq ((hmake i m).bind fun x x' w v hx => ?_)
      obtain ⟨hx, rfl⟩ := hx
      rw [ih (h.update (.some hx))]
      exact Effect.Paired.refl _ w w rfl
    | drop i => exact ih (h.update .none)
    | other e => exact bind_congr fun _ => ih h
    | poll i =>
      match hc : crew i, hc' : crew' i, h i with
      | none, none, .none =>
        rw [run, run, hc, hc']
        exact ih h
      | some x, some x', .some hx =>
        rw [run_poll_of_some deeds hc, run_poll_of_some deeds hc']
        refine Effect.Paired.eq (hx.poll.bind fun s s' w v hs => ?_)
        obtain ⟨hs, rfl⟩ := hs
        rw [runAfter_eq ih h hs]
        exact Effect.Paired.refl _ w w rfl

end Crew

end Stepwise
