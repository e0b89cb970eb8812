import Stepwise.Proofs.Ensures
import Stepwise.Proofs.Trampoline.Stepping

/-! # How deep a computation nests to the left

A step that turns the nesting to the right puts two continuations together, and what the two give together is
nested again. Whether the nesting grows depends on which continuations are put together.

* `leftDepth` counts the continuations on the way to the first part of a computation. `Cont.Within m` says of a
  continuation that what it gives is nested no deeper than `m`, and so are the parts that are put together in it.
* `operate` extends and steps a computation in any order. `rounds` counts how often it was extended right after a
  step.
* `Nested`: the continuation that waits last may be one deeper than the others, but only after a step. Each operation
  keeps it (`nested_apply`), so it holds after all of them (`operate_nested`).
* `step_leftDepth`: a step nests a computation deeper by no more than the number of rounds, so one that is built
  first and then stepped is never nested deeper by a step.
* `rounds_deepen`: there is no better bound. After any number of rounds one step may nest a computation deeper by as
  much.
-/

namespace Stepwise.Trampoline
set_option autoImplicit false

variable {τ κ σ α : Type}

/-! ## Depth -/

/-- How many continuations stand on the way to the first part. -/
def leftDepth : Trampoline τ κ σ α → Nat
  | .done _ => 0
  | .more _ => 0
  | .andThen first _ => first.leftDepth + 1

/-- What the continuation gives is nested at most so deep, and what is put behind something in it no deeper. -/
def Cont.Within : Nat → Cont κ σ α → Prop
  | _, .call _ => True
  | _, .mapping _ => True
  | 0, .compose _ _ => False
  | m + 1, .compose first second => first.Within m ∧ second.Within (m + 1)

def Thunk.Within (m : Nat) : Thunk τ κ σ α → Prop
  | .call _ => True
  | .feed next _ => next.Within m

/-- All continuations that wait are within the bound, and those that wait in work are not put together at all. -/
def Within (m : Nat) : Trampoline τ κ σ α → Prop
  | .done _ => True
  | .more work => work.Within 0
  | .andThen first next => first.Within m ∧ next.Within m

/-- A value or work. -/
def Flat (t : Trampoline τ κ σ α) : Prop := t.leftDepth = 0 ∧ t.Within 0

/-- All work and all continuations of the user give a value or work. -/
structure Meaning.GivesFlat (b : Meaning τ κ σ α) : Prop where
  thunk : ∀ t s, (b.thunk t s).Ensures (fun _ => True) fun u _ => u.Flat
  cont : ∀ k v s, (b.cont k v s).Ensures (fun _ => True) fun u _ => u.Flat

theorem Cont.Within.mono {m m' : Nat} {next : Cont κ σ α} (h : next.Within m) (hm : m ≤ m') : next.Within m' := by
  induction next generalizing m m' with
  | call k => trivial
  | mapping f => trivial
  | compose first second ihfirst ihsecond =>
    cases m with
    | zero => exact h.elim
    | succ m =>
      obtain ⟨m', rfl⟩ : ∃ n, m' = n + 1 := ⟨m' - 1, by omega⟩
      exact ⟨ihfirst h.1 (by omega), ihsecond h.2 hm⟩

theorem Within.mono {m m' : Nat} {t : Trampoline τ κ σ α} (h : t.Within m) (hm : m ≤ m') : t.Within m' := by
  induction t with
  | done v => trivial
  | more work => exact h
  | andThen first next ih => exact ⟨ih h.1, h.2.mono hm⟩

/-! ## Extending and stepping -/

/-- What is done with a computation from outside. -/
inductive Operation (κ σ α : Type)
  | extend (k : κ)
  | map (f : α → Effect σ α)
  | step

def Operation.apply (b : Meaning τ κ σ α) (t : Trampoline τ κ σ α) :
    Operation κ σ α → Effect σ (Trampoline τ κ σ α)
  | .extend k => pure (t.continueWith (.call k))
  | .map f => t.map f
  | .step => t.step b

def operate (b : Meaning τ κ σ α) : List (Operation κ σ α) → Trampoline τ κ σ α → Effect σ (Trampoline τ κ σ α)
  | [], t => pure t
  | operation :: rest, t => do
    let t ← operation.apply b t
    operate b rest t

/-- How often the computation is extended right after a step, also where it was just stepped before. -/
def roundsAfter : Bool → List (Operation κ σ α) → Nat
  | _, [] => 0
  | _, .step :: rest => roundsAfter true rest
  | stepped, .extend _ :: rest => stepped.toNat + roundsAfter false rest
  | stepped, .map _ :: rest => stepped.toNat + roundsAfter false rest

def rounds (operations : List (Operation κ σ α)) : Nat := roundsAfter false operations

/-! ## What a step does to the nesting -/

section Steps

variable {b : Meaning τ κ σ α} (hb : b.GivesFlat)
include hb

theorem resume_within {m : Nat} {next : Cont κ σ α} (h : next.Within m) (v : α) (s : σ) :
    (b.resume next v s).Ensures (fun _ => True) fun t _ => t.Within m ∧ t.leftDepth ≤ m := by
  induction next generalizing m v s with
  | call k =>
    refine (hb.cont k v s).mono (fun _ h => h) ?_
    rintro t _ ⟨hdepth, hwithin⟩
    exact ⟨hwithin.mono (Nat.zero_le m), by omega⟩
  | mapping f =>
    refine (Ending.Ensures.any (f v s)).bind ?_
    rintro u s' -
    exact ⟨trivial, Nat.zero_le m⟩
  | compose first second ih _ =>
    cases m with
    | zero => exact h.elim
    | succ m =>
      refine (ih h.1 v s).bind ?_
      rintro t s' ⟨hwithin, hdepth⟩
      exact ⟨⟨hwithin.mono (Nat.le_succ m), h.2⟩, Nat.succ_le_succ hdepth⟩

theorem force_flat {work : Thunk τ κ σ α} (h : work.Within 0) (s : σ) :
    (b.force work s).Ensures (fun _ => True) fun t _ => t.Flat := by
  cases work with
  | call t => exact hb.thunk t s
  | feed next v =>
    refine (resume_within hb h v s).mono (fun _ h => h) ?_
    rintro t _ ⟨hwithin, hdepth⟩
    exact ⟨Nat.le_zero.1 hdepth, hwithin⟩

end Steps

/-- The continuations that wait are within `m`. Only the one that waits last may be one deeper, and only if the
computation has just been stepped. -/
def Nested (stepped : Bool) (m : Nat) : Trampoline τ κ σ α → Prop
  | .done _ => True
  | .more work => work.Within 0
  | .andThen first next => first.Within m ∧ next.Within (m + stepped.toNat)

section Operations

variable {b : Meaning τ κ σ α} {stepped : Bool} {m : Nat} {t : Trampoline τ κ σ α}

theorem Flat.nested (h : t.Flat) (stepped : Bool) (m : Nat) : Nested stepped m t := by
  cases t with
  | done v => trivial
  | more work => exact h.2
  | andThen first next => exact absurd h.1 (Nat.succ_ne_zero _)

/-- With what is put behind it, the continuation that waited last is one of the others. -/
theorem Nested.within (h : Nested stepped m t) : t.Within (m + stepped.toNat) := by
  cases t with
  | done v => trivial
  | more work => exact h
  | andThen first next => exact ⟨h.1.mono (Nat.le_add_right m _), h.2⟩

theorem Nested.continueWith (h : Nested stepped m t) {next : Cont κ σ α} (hnext : next.Within 0) :
    Nested false (m + stepped.toNat) (t.continueWith next) := by
  cases t with
  | done v => exact hnext
  | more work => exact ⟨h, hnext.mono (Nat.zero_le _)⟩
  | andThen first inner => exact ⟨h.within, hnext.mono (Nat.zero_le _)⟩

theorem Nested.map (h : Nested stepped m t) (f : α → Effect σ α) (s : σ) :
    (t.map f s).Ensures (fun _ => True) fun u _ => Nested false (m + stepped.toNat) u := by
  have hmapping : (Cont.mapping f : Cont κ σ α).Within 0 := trivial
  cases t with
  | done v =>
    refine (Ending.Ensures.any (f v s)).bind ?_
    rintro u s' -
    exact trivial
  | more work => exact Nested.continueWith (t := .more work) h hmapping
  | andThen first inner => exact Nested.continueWith (t := .andThen first inner) h hmapping

theorem resume_nested (hb : b.GivesFlat) {next : Cont κ σ α} (h : next.Within (m + 1)) (v : α) (s : σ) :
    (b.resume next v s).Ensures (fun _ => True) fun u _ => Nested true m u := by
  cases next with
  | call k => exact (hb.cont k v s).mono (fun _ h => h) fun u _ hu => hu.nested true m
  | mapping f =>
    refine (Ending.Ensures.any (f v s)).bind ?_
    rintro u s' -
    exact trivial
  | compose first second =>
    refine (resume_within hb h.1 v s).bind ?_
    rintro u s' ⟨hwithin, -⟩
    exact ⟨hwithin, h.2⟩

/-- How a step changes the nesting while the other continuations are within `m`. -/
structure StepNests (m : Nat) (t u : Trampoline τ κ σ α) : Prop where
  nested : Nested true m u
  deeper : u.leftDepth ≤ t.leftDepth + m
  turned : t.turns = true → u.leftDepth + 1 = t.leftDepth

theorem Nested.step (hb : b.GivesFlat) (h : Nested stepped m t) (s : σ) :
    (t.step b s).Ensures (fun _ => True) fun u _ => StepNests m t u := by
  have hlast : m + stepped.toNat ≤ m + 1 := Nat.add_le_add_left (Bool.toNat_le stepped) m
  cases t with
  | done v => exact ⟨trivial, Nat.zero_le _, nofun⟩
  | more work =>
    refine (force_flat hb h s).mono (fun _ h => h) ?_
    intro u _ hu
    exact ⟨hu.nested true m, by rw [hu.1]; exact Nat.zero_le _, nofun⟩
  | andThen first next =>
    cases first with
    | done v =>
      -- what the continuation gives is as deep as it is itself, and before there was this one only
      have hnext := h.2.mono hlast
      refine ((resume_within hb hnext v s).and (resume_nested hb hnext v s)).mono (fun _ h => h) ?_
      rintro u _ ⟨⟨-, hdepth⟩, hnested⟩
      refine ⟨hnested, ?_, nofun⟩
      rw [leftDepth, leftDepth]
      omega
    | more work =>
      refine (force_flat hb h.1 s).bind ?_
      intro u s' hu
      refine ⟨⟨hu.2.mono (Nat.zero_le m), h.2.mono hlast⟩, ?_, nofun⟩
      rw [leftDepth, leftDepth, leftDepth, hu.1]
      omega
    | andThen first inner =>
      obtain ⟨⟨hfirst, hinner⟩, hnext⟩ := h
      refine ⟨⟨hfirst, hinner, hnext.mono hlast⟩, ?_, fun _ => rfl⟩
      rw [leftDepth, leftDepth, leftDepth]
      omega

/-- Where the computation is nested after some more operations. -/
def NestedAfter (m : Nat) (t : Trampoline τ κ σ α) : Prop := ∃ stepped, Nested stepped m t

theorem operate_nested (hb : b.GivesFlat) (operations : List (Operation κ σ α)) (h : Nested stepped m t) (s : σ) :
    (operate b operations t s).Ensures (fun _ => True) fun u _ =>
      NestedAfter (m + roundsAfter stepped operations) u := by
  induction operations generalizing stepped m t s with
  | nil => exact ⟨stepped, h⟩
  | cons operation rest ih =>
    cases operation with
    | extend k =>
      rw [roundsAfter, ← Nat.add_assoc]
      have hcall : (Cont.call k : Cont κ σ α).Within 0 := trivial
      exact ih (h.continueWith hcall) s
    | map f =>
      rw [roundsAfter, ← Nat.add_assoc]
      exact (h.map f s).bind fun u s' hu => ih hu s'
    | step => exact (h.step hb s).bind fun u s' hu => ih hu.nested s'

end Operations

/-- However a computation is extended and stepped, the next step nests it deeper by no more than the number of rounds
in which it was extended after a step, and a step that turns the nesting takes one off. -/
theorem step_leftDepth (b : Meaning τ κ σ α) (hb : b.GivesFlat) (t : Trampoline τ κ σ α) (ht : t.Flat)
    (operations : List (Operation κ σ α)) (s : σ) :
    (operate b operations t s).Ensures (fun _ => True) fun u s =>
      (u.step b s).Ensures (fun _ => True) fun u' _ =>
        u'.leftDepth ≤ u.leftDepth + rounds operations ∧ (u.turns = true → u'.leftDepth + 1 = u.leftDepth) := by
  refine (operate_nested hb operations (ht.nested false 0) s).mono (fun _ h => h) ?_
  rintro u s ⟨stepped, hu⟩
  rw [Nat.zero_add] at hu
  exact (hu.step hb s).mono (fun _ h => h) fun u' _ hu' => ⟨hu'.deeper, hu'.turned⟩

/-! ## A computation that grows -/

theorem counting_givesFlat : counting.GivesFlat where
  thunk _ _ := ⟨rfl, trivial⟩
  cont _ _ _ := ⟨rfl, trivial⟩

theorem counting_step_leftDepth :
    counting.GivesFlat ∧ Flat (.more (.call ()) : Trampoline Unit Unit Nat Nat) ∧
      (operate counting [.extend (), .extend (), .step, .map pure, .step] (.more (.call ())) 3).Ensures
        (fun _ => True) fun u s => (u.step counting s).Ensures (fun _ => True) fun u' _ =>
          u'.leftDepth ≤ u.leftDepth + 1 ∧ (u.turns = true → u'.leftDepth + 1 = u.leftDepth) :=
  ⟨counting_givesFlat, ⟨rfl, trivial⟩,
    step_leftDepth counting counting_givesFlat (.more (.call ())) ⟨rfl, trivial⟩
      [.extend (), .extend (), .step, .map pure, .step] 3⟩

/-- A computation that was stepped, extended and stepped again is nested deeper by the step that gives its first
value to the continuations. -/
theorem extended_step_deepens :
    counting.GivesFlat ∧ ∃ t u,
      operate counting [.extend (), .extend (), .step, .extend (), .step, .step] (.more (.call ())) 0 =
        .returned t 1 ∧
      t.step counting 1 = .returned u 1 ∧ t.leftDepth = 1 ∧ u.leftDepth = 2 :=
  ⟨counting_givesFlat, _, _, rfl, rfl, rfl, rfl⟩

/-- Extend and step in turn, and make one more step. -/
def alternating : Nat → List (Operation Unit Nat Nat)
  | 0 => [.step]
  | n + 1 => .extend () :: .step :: alternating n

/-- What the continuation has become by then. -/
def chained : Nat → Cont Unit Nat Nat → Cont Unit Nat Nat
  | 0, next => next
  | n + 1, next => chained n (.compose next (.call ()))

theorem roundsAfter_alternating (n : Nat) : roundsAfter true (alternating n) = n := by
  induction n with
  | zero => rfl
  | succ n ih =>
    rw [alternating, roundsAfter, roundsAfter, ih]
    exact Nat.add_comm 1 n

theorem operate_alternating (n : Nat) (next : Cont Unit Nat Nat) (s : Nat) :
    operate counting (alternating n) (.andThen (.more (.call ())) next) s =
      .returned (.andThen (.done s) (chained n next)) (s + 1) := by
  induction n generalizing next with
  | zero => rfl
  | succ n ih => exact ih (.compose next (.call ()))

theorem resume_chained (n : Nat) (next : Cont Unit Nat Nat) {v s s' : Nat} {u : Trampoline Unit Unit Nat Nat}
    (h : counting.resume next v s = .returned u s') :
    ∃ u', counting.resume (chained n next) v s = .returned u' s' ∧ u'.leftDepth = u.leftDepth + n := by
  induction n generalizing next u with
  | zero => exact ⟨u, h, rfl⟩
  | succ n ih =>
    have hcompose : counting.resume (.compose next (.call ())) v s = .returned (.andThen u (.call ())) s' :=
      Effect.bind_of_returned _ h
    obtain ⟨u', hu', hdepth⟩ := ih (.compose next (.call ())) hcompose
    refine ⟨u', hu', ?_⟩
    rw [hdepth, leftDepth]
    omega

/-- After any number of rounds there may be a step that nests a computation deeper by as much. -/
theorem rounds_deepen (n : Nat) :
    ∃ operations t u, rounds operations = n ∧
      operate counting operations (.more (.call ())) 0 = .returned t 1 ∧
      t.step counting 1 = .returned u 1 ∧ u.leftDepth = t.leftDepth + n := by
  obtain ⟨u, hu, hdepth⟩ := resume_chained n (.compose (.call ()) (.call ())) (v := 0) (s := 1) rfl
  refine ⟨.extend () :: .extend () :: .step :: alternating n, _, u, ?_, operate_alternating n _ 0, hu, hdepth⟩
  simp [rounds, roundsAfter, roundsAfter_alternating]

end Stepwise.Trampoline
