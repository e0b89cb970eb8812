import Stepwise.Proofs.Crew
import Stepwise.Proofs.Job.Sum
import Stepwise.Proofs.Nest.Basic

/-! # Many sums

Sums may be nested in the steps of other jobs, and any number of them may be under way at the same time. What a
step gives is added to the sum that requested it and to no other one.

* `Tallied`: a job in which a sum is held as a loop with a ledger of its own. Only the steps of this loop are
  entered, and the ledger is added up when the loop comes to its end.
* `Nest.startTallied` and `Nest.pollTallied` do this at every level of a nest. By induction on the nest they
  cannot be told from `Nest.start` and `Nest.poll` (`Nest.tallied_alike`): a job whose steps are alike is alike,
  and a job is alike to its tallied form.
* `totals_exact`: this for one sum in any world, and for any number of nests that are made, polled and dropped
  in any order.
-/

namespace Stepwise
set_option autoImplicit false

variable {W I α P G F β : Type}

/-! ## Jobs with ledgers -/

/-- A job in which a sum is held as a loop with a ledger. -/
inductive Tallied (I α P G F : Type)
  | plain (j : Job I α P G F)
  | total (loop : Job I α P G F) (ledger : List Int32)

namespace Tallied

def start (next : Next W I α) (step : G → Call α → Effect W (F × G)) (fuel : Nat) (plan : Plan I α) (filter : P)
    (consumer : G) : Effect W (Tallied I α P G F) :=
  match plan with
  | .sum source => do
    let loop ← Job.start next step fuel (.iterate .each source) filter consumer
    pure (.total loop [])
  | .sumList elements => do
    let loop ← Job.start next step fuel (.list .each elements) filter consumer
    pure (.total loop [])
  | .sumRange start stop => do
    let loop ← Job.start next step fuel (.range false start stop) filter consumer
    pure (.total loop [])
  | plan => do
    let j ← Job.start next step fuel plan filter consumer
    pure (.plain j)

def poll (k : Kit W I α P G F β) (fuel : Nat) : Poller W (Tallied I α P G F) (Option Int32)
  | .plain j => do
    let (answer, j) ← Job.poll k fuel j
    pure (answer, .plain j)
  | .total loop ledger => do
    let (answer, loop, ledger) ← Poller.owned Job.ledgerSum (Job.poll k.tallying fuel) (loop, ledger)
    pure (answer, .total loop ledger)

theorem plain_alike (k : Kit W I α P G F β) (n : Nat) (j : Job I α P G F) :
    (Job.poll k n).Alike (Tallied.poll k n) j (.plain j) :=
  Poller.alike_wrapped (fun _ => rfl) j

theorem total_alike (k : Kit W I α P G F β) (n : Nat) (loop : Job I α P G F) (ledger : List Int32) :
    (Poller.owned Job.ledgerSum (Job.poll k.tallying n)).Alike (Tallied.poll k n) (loop, ledger)
      (.total loop ledger) := by
  let total : Job I α P G F × List Int32 → Tallied I α P G F := fun x => .total x.1 x.2
  have hwrap : ∀ x, Tallied.poll k n (total x) = Poller.owned Job.ledgerSum (Job.poll k.tallying n) x >>=
      fun r => pure (r.1, total r.2) := fun _ => rfl
  exact Poller.alike_wrapped hwrap (loop, ledger)

theorem start_plain (next : Next W I α) (step : G → Call α → Effect W (F × G)) (n : Nat) (plan : Plan I α)
    (filter : P) (consumer : G) :
    (∃ t : Total I α, plan = t.sum ∧ Tallied.start next step n plan filter consumer =
      Job.start next step n t.loop filter consumer >>= fun loop => pure (.total loop [])) ∨
    Tallied.start next step n plan filter consumer =
      Job.start next step n plan filter consumer >>= fun j => pure (.plain j) := by
  cases plan with
  | sum source => exact .inl ⟨.source source, rfl, rfl⟩
  | sumList elements => exact .inl ⟨.list elements, rfl, rfl⟩
  | sumRange start stop => exact .inl ⟨.range start stop, rfl, rfl⟩
  | _ => exact .inr rfl

/-- Nobody can tell a job from its tallied form. -/
theorem start_alike (k : Kit W I α P G F β) (n : Nat) (plan : Plan I α) (filter : P) (consumer : G) :
    Effect.Paired Equal ((Job.poll k n).AlikeAt (Tallied.poll k n))
      (Job.start k.next k.step n plan filter consumer) (Tallied.start k.next k.step n plan filter consumer) := by
  obtain ⟨t, rfl, hstart⟩ | hstart := start_plain k.next k.step n plan filter consumer
  · rw [hstart]
    rintro w v hw
    refine (Job.start_made k n t filter consumer w v hw).bind_right fun j loop w v hj => ?_
    obtain ⟨hmade, hw⟩ := hj
    exact ⟨(hmade.tallied w).trans (total_alike k n loop []), hw⟩
  · rw [hstart]
    rintro w v hw
    refine (Effect.Paired.refl _ w v hw).bind_right fun j j' w v hj => ?_
    obtain ⟨rfl, hw⟩ := hj
    exact ⟨plain_alike k n j, hw⟩

end Tallied

/-! ## Nests with ledgers -/

/-- What a watched computation does when the inner one has resolved. -/
def Watched.close {N : Type} [Logging W] (message : N → Effect W String) (m : N) (sql : String) :
    Resolution β → Effect W (Resolution β)
  | .ok (.error e) => do
    Statement.logFailure (some e) (message m) sql
    pure (.ok (.error e))
  | r => pure r

theorem Watched.stage {N : Type} [Logging W] (p : Poller W F β) (message : N → Effect W String) (m : N)
    (sql : String) (x : F) : Poller.stage (Watched.poll p message) (.active x m sql) =
      p.stage x >>= Stage.around (fun x => .active x m sql) (Watched.close message m sql) := by
  rw [Poller.stage_eq, Poller.stage_eq, Watched.poll, bind_assoc, bind_assoc]
  refine bind_congr fun r => ?_
  obtain ⟨answer, x⟩ := r
  cases answer with
  | pending => rfl
  | panicked cause => rfl
  | ready o =>
    cases o with
    | ok b => rfl
    | error e =>
      change (Statement.logFailure (some e) (message m) sql >>= _) >>= _ =
        (Statement.logFailure (some e) (message m) sql >>= _) >>= _
      rw [bind_assoc, bind_assoc]
      rfl

namespace Nest

variable {U M N : Type}

/-- The states of a nest whose jobs are tallied. -/
def TalliedState {M F β : Type} : Nest U M F β → Type
  | @leaf _ F _ _ => F
  | @job _ I α P G _ _ _ _ _ _ inner => Tallied I α P G inner.TalliedState
  | @watched _ _ _ N _ _ inner => Watched inner.TalliedState N
  | mapped _ inner => inner.TalliedState
  | any inner => Σ i, (inner i).TalliedState

def startTallied (fuel : Nat) {M F β : Type} : (t : Nest U M F β) → M → Effect (U × Trace) t.TalliedState
  | .leaf _, x => pure x
  | .job calls again summand inner, (plan, filter, consumer) =>
    let k := kit calls again summand (startTallied fuel inner) fun x => pure (.pending, x)
    Tallied.start k.next k.step fuel plan filter consumer
  | .watched _ inner, (m, n, sql) => do
    let x ← startTallied fuel inner m
    pure (.active x n sql)
  | .mapped _ inner, m => startTallied fuel inner m
  | .any inner, ⟨i, m⟩ => do
    let x ← startTallied fuel (inner i) m
    pure ⟨i, x⟩

def pollTallied [Logging U] (fuel : Nat) {M F β : Type} :
    (t : Nest U M F β) → Poller (U × Trace) t.TalliedState β
  | .leaf poll => reach poll
  | .job calls again summand inner =>
    Tallied.poll (kit calls again summand (startTallied fuel inner) (pollTallied fuel inner)) fuel
  | .watched message inner => Watched.poll (pollTallied fuel inner) (compose message)
  | .mapped f inner => (pollTallied fuel inner).map f
  | .any inner => fun x => do
    let r ← pollTallied fuel (inner x.1) x.2
    pure (r.1, ⟨x.1, r.2⟩)

/-- The calls of a job whose steps are alike. -/
theorem kit_alike {I α P G F F' β : Type} (calls : Calls U I α P G M) (again : β → Bool) (summand : β → Int32)
    {make : M → Effect (U × Trace) F} {make' : M → Effect (U × Trace) F'} {p : Poller (U × Trace) F β}
    {q : Poller (U × Trace) F' β} (hmake : ∀ m, Effect.Paired Equal (p.AlikeAt q) (make m) (make' m)) :
    (kit calls again summand make p).Paired Equal
      ((kit calls again summand make p).poll.AlikeAt (kit calls again summand make' q).poll) id id
      (kit calls again summand make' q) where
  next source := Effect.Paired.refl _
  test p call := Effect.Paired.refl _
  step g call := by
    refine (Effect.Paired.refl (note .requested)).bind fun _ _ w v hw => ?_
    refine Ending.Paired.bind (Effect.Paired.refl ((calls.step g call).within Trace) w v hw.2) fun r r' w v hr => ?_
    obtain ⟨rfl, hw⟩ := hr
    refine (hmake r.1 w v hw).bind fun x y w v hxy => ?_
    obtain ⟨h, hw⟩ := hxy
    exact ⟨⟨h.opening (note .polled), hw⟩, r.2, rfl, rfl⟩
  isTrue := rfl
  summand := rfl

/-- Nobody can tell a nest from its tallied form. -/
theorem tallied_alike [Logging U] (fuel : Nat) {M F β : Type} (t : Nest U M F β) (m : M) :
    Effect.Paired Equal ((t.poll fuel).AlikeAt (t.pollTallied fuel)) (t.start fuel m) (t.startTallied fuel m) := by
  induction t with
  | leaf poll => exact Effect.Paired.pure fun w v hw => ⟨Poller.Alike.refl _ m, hw⟩
  | @job I α P G M F β calls again summand inner ih =>
    obtain ⟨plan, filter, consumer⟩ := m
    have hjob := Job.start_alike (kit_alike calls again summand ih) fuel plan filter consumer
    have htallied := Tallied.start_alike (kit calls again summand (inner.startTallied fuel)
      (inner.pollTallied fuel)) fuel plan filter consumer
    exact Poller.alikeAt_trans hjob htallied
  | @watched M F N β message inner ih =>
    obtain ⟨m, n, sql⟩ := m
    refine (ih m).bind fun x y w v hxy => ?_
    obtain ⟨hxy, hw⟩ := hxy
    exact ⟨hxy.around (Watched.stage _ (compose message) n sql) (Watched.stage _ (compose message) n sql), hw⟩
  | mapped f inner ih =>
    refine (ih m).imp fun {x y w v} hxy => ?_
    exact ⟨hxy.1.map f, hxy.2⟩
  | @any ι β M F inner ih =>
    obtain ⟨i, m⟩ := m
    refine (ih i m).bind fun x y w v hxy => ?_
    obtain ⟨hxy, hw⟩ := hxy
    exact ⟨hxy.wrapped (fun _ => rfl) (fun _ => rfl), hw⟩

/-! ## The whole statement -/

/-- Sums are exact. A sum makes the calls of the loop over the same, in the same order, and waits, fails and comes
to its end in the same polls; if it comes to its end, it gives the sum of what its steps gave, each of them
counted once. A sum over nothing calls no step and gives zero. Any number of sums, nested in each other and
polled in any order, are like as many loops of which each one has a ledger of its own. -/
theorem totals_exact [Logging U] (fuel : Nat) :
    (∀ (W I α P G F β : Type) (k : Kit W I α P G F β) (t : Total I α) (filter : P) (consumer : G)
        (gaps : List (Effect W Unit)),
      (Job.answers k fuel t.sum filter consumer gaps >>= fun a => pure (a.map (Poll.map fun _ => ()))) =
        (Job.answers k fuel t.loop filter consumer gaps >>= fun a => pure (a.map (Poll.map fun _ => ()))) ∧
      Job.answers k fuel t.sum filter consumer gaps =
        Job.start k.next k.step fuel t.loop filter consumer >>= fun loop =>
          (Poller.owned Job.ledgerSum (Job.poll k.tallying fuel)).asked gaps (loop, [])) ∧
    (∀ (W I α P G F β : Type) (k : Kit W I α P G F β) (t : Total I α) (w w' : W) (filter : P) (consumer : G),
      t.Nothing k.next w w' →
        Job.start k.next k.step fuel t.sum filter consumer w = .returned t.zero w' ∧
          Job.poll k fuel (t.zero : Job I α P G F) = pure (.ready (.ok (some 0)), t.zero)) ∧
    (∀ (ι : Type) (_ : DecidableEq ι) (M F β : ι → Type) (nests : ∀ i, Nest U (M i) (F i) (β i))
        (deeds : List (Deed (U × Trace) M)),
      Crew.run (fun i => (nests i).start fuel) (fun i => (nests i).poll fuel) deeds (fun _ => none) =
        Crew.run (fun i => (nests i).startTallied fuel) (fun i => (nests i).pollTallied fuel) deeds
          fun _ => none) ∧
    ∀ (ledger : List Int32) (s : Int32),
      s = exactSum ledger ↔ s.toInt ≡ (ledger.map Int32.toInt).sum [ZMOD (2 ^ 32 : Nat)] := by
  refine ⟨fun W I α P G F β k t filter consumer gaps => ⟨?_, ?_⟩, ?_, ?_, fun ledger s => eq_exactSum_iff⟩
  · exact Job.total_answers k fuel t filter consumer gaps
  · exact Job.total_eq_tallied k fuel t filter consumer gaps
  · intro W I α P G F β k t w w' filter consumer hnothing
    exact Job.start_of_nothing k fuel hnothing filter consumer
  · intro ι _ M F β nests deeds
    exact Crew.run_eq (fun i m => tallied_alike fuel (nests i) m) deeds fun _ => .none

end Nest

end Stepwise
