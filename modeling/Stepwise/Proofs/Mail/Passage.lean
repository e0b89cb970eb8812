import Mathlib.Data.List.ReduceOption
import Stepwise.Proofs.Job.Offers
import Stepwise.Proofs.Job.Upheld
import Stepwise.Proofs.Mail.Session

/-! # Elements that a job has passed

The calls in a ledger are those of the elements of the plan, one element after the other: the filter has decided on
each, a step was requested for those that it accepted and for no other one, and a job that is at its end has passed all
of them.

* `Through` says how far the calls have come. It has a lemma for each call (`Through.gave_some`, `Through.judge`,
  `Through.request`, `Through.take`).
* `Finished`: all elements were passed, and no more will be known of. `Failed`: the filter refused an element, or the
  step of the last one that was passed failed.
* `Feeds`: a source hands on the elements of the plan, also through a lookahead. `walk_passes` and
  `range_walk_passes` carry this through a walk, by induction on the elements that it takes.
-/

namespace Stepwise.Mail
set_option autoImplicit false

open Script (World Value Mailbox)

variable {U I J α P Q G F : Type}

/-! ## What a ledger says of the elements -/

/-- What the source gave, an element or its end each time. -/
def entries : List (Entry α) → List (Option α)
  | [] => []
  | .gave entry :: l => entry :: entries l
  | _ :: l => entries l

/-- The elements that the source gave, in their order. -/
def given (l : List (Entry α)) : List α := (entries l).reverse.reduceOption

def verdicts : List (Entry α) → List (Call α × Outcome Bool)
  | [] => []
  | .judged call verdict :: l => (call, verdict) :: verdicts l
  | _ :: l => verdicts l

/-- The calls of the steps. -/
def steps : List (Entry α) → List (Call α)
  | [] => []
  | .requested call _ :: l => call :: steps l
  | _ :: l => steps l

/-- What steps have resolved to. -/
def values : List (Entry α) → List Value
  | [] => []
  | .taken _ (.ok v) :: l => v :: values l
  | _ :: l => values l

/-- How often a driven loop was told to go on. -/
def repeats (again : Value → Bool) (l : List (Entry α)) : Nat := ((values l).reverse.takeWhile again).length

/-- The elements of the plan as far as they are known. -/
def offers (plan : Plan I α) (again : Value → Bool) (l : List (Entry α)) : List (Offer α) :=
  plan.offers (given l) (repeats again l)

/-- No more elements will be known of. -/
def Ended (again : Value → Bool) (l : List (Entry α)) : Plan I α → Prop
  | .iterate _ _ => none ∈ entries l
  | .chain _ => none ∈ entries l
  | .sum _ => none ∈ entries l
  | .drive => ∃ v ∈ values l, again v = false
  | _ => True

theorem Ended.transfer {plan : Plan I α} {again : Value → Bool} {l l' : List (Entry α)} (h : Ended again l plan)
    (hentries : entries l' = entries l) (hvalues : values l' = values l) : Ended again l' plan := by
  unfold Ended at *
  rw [hentries, hvalues]
  exact h

/-- These elements were passed, the latest first, each with the decision on it, and these are left. For the first one
of those the filter may have said something more. -/
structure Through (plan : Plan I α) (again : Value → Bool) (l : List (Entry α)) (more : List (Call α × Outcome Bool))
    (failed : List Failure) (passed : List (Offer α × Bool)) (left : List (Offer α)) : Prop where
  offers : offers plan again l = (passed.map Prod.fst).reverse ++ left
  verdicts : verdicts l = more ++ passed.filterMap fun e => e.1.verdict? e.2
  steps : steps l = (passed.filter Prod.snd).map fun e => e.1.step
  unfiltered : ∀ e ∈ passed, e.1.test = none → e.2 = true
  failures : failures l = failed

/-- All elements were passed, and there are no more. -/
def Finished (plan : Plan I α) (again : Value → Bool) (l : List (Entry α)) : Prop :=
  ∃ passed, Through plan again l [] [] passed [] ∧ Ended again l plan

/-- The filter has failed on an element, or the step for the last element that was passed has. -/
def Failed (plan : Plan I α) (again : Value → Bool) (e : Failure) (l : List (Entry α)) : Prop :=
  ∃ passed o left, (∃ call, o.test = some call ∧ Through plan again l [(call, .error e)] [] passed (o :: left)) ∨
    Through plan again l [] [e] ((o, true) :: passed) left

namespace Through

variable {plan : Plan I α} {again : Value → Bool} {l : List (Entry α)} {more : List (Call α × Outcome Bool)}
  {failed : List Failure} {passed : List (Offer α × Bool)} {o : Offer α} {left : List (Offer α)}

theorem start (plan : Plan I α) (again : Value → Bool) :
    Through plan again [] [] [] [] (plan.offers [] 0) := ⟨rfl, rfl, rfl, nofun, rfl⟩

theorem length_offers (h : Through plan again l more failed passed left) :
    (Mail.offers plan again l).length = passed.length + left.length := by
  rw [h.offers, List.length_append, List.length_reverse, List.length_map]

theorem gave_some {form : Form} (hplan : plan.Asks form) (h : Through plan again l more failed passed left) (x : α) :
    Through plan again (.gave (some x) :: l) more failed passed
      (left ++ form.offersFrom (passed.length + left.length) [x]) where
  offers := by
    have hgiven : given (.gave (some x) :: l) = given l ++ [x] := by
      rw [given, entries, List.reverse_cons, List.reduceOption_append]
      rfl
    have hlength := h.length_offers
    rw [Mail.offers, Plan.offers_of_asks hplan, Form.length_offersFrom] at hlength
    have hoffers := h.offers
    rw [Mail.offers, Plan.offers_of_asks hplan] at hoffers
    rw [Mail.offers, Plan.offers_of_asks hplan, hgiven, Form.offersFrom_append, hoffers, hlength, Nat.zero_add,
      List.append_assoc]
  verdicts := h.verdicts
  steps := h.steps
  unfiltered := h.unfiltered
  failures := h.failures

theorem gave_none (h : Through plan again l more failed passed left) :
    Through plan again (.gave none :: l) more failed passed left where
  offers := by
    have hgiven : given (.gave none :: l) = given l := by
      rw [given, entries, List.reverse_cons, List.reduceOption_append, List.reduceOption_singleton]
      exact List.append_nil _
    rw [← h.offers, Mail.offers, hgiven]
    rfl
  verdicts := h.verdicts
  steps := h.steps
  unfiltered := h.unfiltered
  failures := h.failures

theorem judge (h : Through plan again l [] failed passed left) (call : Call α) (verdict : Outcome Bool) :
    Through plan again (.judged call verdict :: l) [(call, verdict)] failed passed left where
  offers := h.offers
  verdicts := congrArg ((call, verdict) :: ·) h.verdicts
  steps := h.steps
  unfiltered := h.unfiltered
  failures := h.failures

theorem reject {call : Call α} (ho : o.test = some call)
    (h : Through plan again l [(call, .ok false)] failed passed (o :: left)) :
    Through plan again l [] failed ((o, false) :: passed) left where
  offers := by rw [h.offers, List.map_cons, List.reverse_cons, List.append_assoc]; rfl
  verdicts := by
    rw [h.verdicts]
    simp only [List.filterMap_cons, Offer.verdict?, ho]
    rfl
  steps := h.steps
  unfiltered e he hnone := by
    rcases List.mem_cons.1 he with rfl | he
    · rw [ho] at hnone
      cases hnone
    · exact h.unfiltered e he hnone
  failures := h.failures

theorem request (h : Through plan again l (o.verdict? true).toList failed passed (o :: left)) (c : Int64) :
    Through plan again (.requested o.step c :: l) [] failed ((o, true) :: passed) left where
  offers := by
    have hoffers := h.offers
    rw [List.map_cons, List.reverse_cons, List.append_assoc]
    exact hoffers
  verdicts := by
    have hverdicts := h.verdicts
    rw [List.filterMap_cons]
    cases hv : o.verdict? true with
    | none => rw [hv] at hverdicts; exact hverdicts
    | some v => rw [hv] at hverdicts; exact hverdicts
  steps := congrArg (o.step :: ·) h.steps
  unfiltered e he hnone := by
    rcases List.mem_cons.1 he with rfl | he
    · rfl
    · exact h.unfiltered e he hnone
  failures := h.failures

theorem fail (h : Through plan again l more failed passed left) (c : Int64) (e : Failure) :
    Through plan again (.taken c (.error e) :: l) more (e :: failed) passed left where
  offers := h.offers
  verdicts := h.verdicts
  steps := h.steps
  unfiltered := h.unfiltered
  failures := congrArg (e :: ·) h.failures

/-- A value may have told a driven loop of more elements. -/
theorem take (h : Through plan again l more failed passed left) (c : Int64) (v : Value) {later : List (Offer α)}
    (hoffers : Mail.offers plan again (.taken c (.ok v) :: l) = Mail.offers plan again l ++ later) :
    Through plan again (.taken c (.ok v) :: l) more failed passed (left ++ later) where
  offers := by rw [hoffers, h.offers, List.append_assoc]
  verdicts := h.verdicts
  steps := h.steps
  unfiltered := h.unfiltered
  failures := h.failures

theorem put (h : Through plan again l more failed passed left) (c : Int64) (message : Outcome Value) :
    Through plan again (.put c message :: l) more failed passed left :=
  ⟨h.offers, h.verdicts, h.steps, h.unfiltered, h.failures⟩

end Through

/-! ## One element -/

section Elements

variable {plan : Plan I α} {again : Value → Bool} (calls : Nest.Calls U I α P G Int64) (summand : Value → Int32)

/-- What holds after the decision on an element. -/
def Decided (plan : Plan I α) (again : Value → Bool) (passed : List (Offer α × Bool)) (o : Offer α)
    (left : List (Offer α)) (l : List (Entry α)) : Outcome Bool → Prop
  | .ok true => Through plan again l (o.verdict? true).toList [] passed (o :: left)
  | .ok false => Through plan again l [] [] ((o, false) :: passed) left
  | .error e => ∃ call, o.test = some call ∧ Through plan again l [(call, .error e)] [] passed (o :: left)

theorem test_decided {o : Offer α} {call : Call α} (ho : o.test = some call) (p : P)
    {ws : U × Post α} {passed : List (Offer α × Bool)} {left : List (Offer α)}
    (h : Through plan again ws.2.ledger [] [] passed (o :: left)) :
    ((kit calls again summand).test p call ws).Ensures (fun _ => True) fun r ws =>
      Decided plan again passed o left ws.2.ledger r.1 := by
  refine (Ending.Ensures.within_of (R := fun p : Post α => Through plan again p.ledger [] [] passed (o :: left))
    (calls.test p call) h).result.bind ?_
  rintro ⟨verdict, p⟩ ws h
  have hjudged := h.judge call verdict
  cases verdict with
  | error e => exact ⟨call, ho, hjudged⟩
  | ok accepted =>
    cases accepted with
    | false => exact hjudged.reject ho
    | true =>
      have hverdict : o.verdict? true = some (call, .ok true) := by rw [Offer.verdict?, ho]; rfl
      change Through plan again _ (o.verdict? true).toList [] passed (o :: left)
      rw [hverdict]
      exact hjudged

theorem unfiltered_decided {o : Offer α} (ho : o.test = none) {l : List (Entry α)} {passed : List (Offer α × Bool)}
    {left : List (Offer α)} (h : Through plan again l [] [] passed (o :: left)) :
    Decided plan again passed o left l (.ok true) := by
  have hverdict : o.verdict? true = none := by rw [Offer.verdict?, ho]; rfl
  change Through plan again l (o.verdict? true).toList [] passed (o :: left)
  rw [hverdict]
  exact h

theorem step_passes (g : G) {o : Offer α} {ws : U × Post α}
    {passed : List (Offer α × Bool)} {left : List (Offer α)}
    (h : Decided plan again passed o left ws.2.ledger (.ok true)) :
    ((kit calls again summand).step g o.step ws).Ensures (fun _ => True) fun _ ws =>
      Through plan again ws.2.ledger [] [] ((o, true) :: passed) left :=
  (Ending.Ensures.within_of (R := fun p : Post α => Through plan again p.ledger (o.verdict? true).toList [] passed
    (o :: left)) (calls.step g o.step) h).result.bind fun r _ h => h.request r.1

/-- The request of a step tells nothing new of the source, and nothing of what steps resolve to. -/
theorem step_keeps (g : G) (call : Call α) (ws : U × Post α) :
    ((kit calls again summand).step g call ws).Ensures (fun _ => True) fun _ ws' =>
      entries ws'.2.ledger = entries ws.2.ledger ∧ values ws'.2.ledger = values ws.2.ledger := by
  refine (Ending.Ensures.within (calls.step g call) ws.1 ws.2).result.bind fun r ws' h => ?_
  rw [← h]
  exact ⟨rfl, rfl⟩

end Elements

/-! ## Sources -/

/-- A source hands on the elements of the plan. After `H j xs` it gives first `xs`. -/
def Feeds (plan : Plan I α) (again : Value → Bool) (form : Form) (next : Next (U × Post α) J α)
    (H : J → List α → Prop) : Prop :=
  ∀ j ws xs passed, H j xs → Through plan again ws.2.ledger [] [] passed (form.offersFrom passed.length xs) →
    (next j ws).Ensures (fun _ => True) fun r ws =>
      match r.1 with
      | some x => ∃ rest, H r.2 rest ∧
          Through plan again ws.2.ledger [] [] passed (form.offersFrom passed.length (x :: rest))
      | none => Through plan again ws.2.ledger [] [] passed [] ∧ Ended again ws.2.ledger plan

/-- Nothing is known of what a source that is asked will give. -/
def Unknown (_ : J) (xs : List α) : Prop := xs = []

/-- A lookahead gives first what it kept back. -/
def Ahead (H : J → List α → Prop) (a : Lookahead J α) (xs : List α) : Prop :=
  a.seen = none ∧ H a.source xs ∨ ∃ x rest, a.seen = some (some x) ∧ H a.source rest ∧ xs = x :: rest

section Sources

variable {plan : Plan I α} {again : Value → Bool} {form : Form}

theorem ended_of_asks (hplan : plan.Asks form) {l : List (Entry α)} (h : none ∈ entries l) : Ended again l plan := by
  cases plan <;> first | exact h | cases hplan

theorem feeds_asked (calls : Nest.Calls U I α P G Int64) (summand : Value → Int32) (plan : Plan I α)
    (hplan : plan.Asks form) : Feeds plan again form (kit calls again summand).next Unknown := by
  rintro j ws xs passed rfl h
  refine (Ending.Ensures.within_of (R := fun p : Post α => Through plan again p.ledger [] [] passed [])
    (calls.next j) h).result.bind ?_
  rintro ⟨entry, source⟩ ws h
  cases entry with
  | none => exact ⟨h.gave_none, ended_of_asks hplan List.mem_cons_self⟩
  | some x => exact ⟨[], rfl, h.gave_some hplan x⟩

theorem feeds_list (plan : Plan I α) (hended : ∀ l : List (Entry α), Ended again l plan) :
    Feeds plan again form (Next.ofList : Next (U × Post α) (List α) α) Eq := by
  rintro xs ws _ passed rfl h
  cases xs with
  | nil => exact ⟨h, hended _⟩
  | cons x rest => exact ⟨rest, rfl, h⟩

theorem Feeds.ahead {next : Next (U × Post α) J α} {H : J → List α → Prop} (hnext : Feeds plan again form next H) :
    Feeds plan again form (Lookahead.next next) (Ahead H) := by
  rintro ⟨source, seen⟩ ws xs passed hxs h
  rcases hxs with ⟨rfl, hsource⟩ | ⟨x, rest, rfl, hsource, rfl⟩
  · refine (hnext source ws xs passed hsource h).bind ?_
    rintro ⟨entry, source⟩ ws hr
    cases entry with
    | none => exact hr
    | some x =>
      obtain ⟨rest, hrest, hr⟩ := hr
      exact ⟨rest, Or.inl ⟨rfl, hrest⟩, hr⟩
  · exact ⟨rest, Or.inl ⟨rfl, hsource⟩, h⟩

/-- The first element is looked at, and kept back. -/
theorem Feeds.peek {next : Next (U × Post α) J α} {H : J → List α → Prop} (hnext : Feeds plan again form next H)
    {source : J} {ws : U × Post α} {xs : List α} (hsource : H source xs)
    (h : Through plan again ws.2.ledger [] [] [] (form.offersFrom 0 xs)) :
    (Lookahead.peek next { source } ws).Ensures (fun _ => True) fun r ws =>
      match r.1 with
      | some _ => ∃ xs, Ahead H r.2 xs ∧ Through plan again ws.2.ledger [] [] [] (form.offersFrom 0 xs)
      | none => Through plan again ws.2.ledger [] [] [] [] ∧ Ended again ws.2.ledger plan := by
  refine (hnext source ws xs [] hsource h).bind ?_
  rintro ⟨entry, source⟩ ws hr
  cases entry with
  | none => exact hr
  | some x =>
    obtain ⟨rest, hrest, hr⟩ := hr
    exact ⟨x :: rest, Or.inr ⟨x, rest, rfl, hrest, rfl⟩, hr⟩

end Sources

/-! ## Walks -/

/-- What holds where this was found. After a step `later` says what is left behind it. -/
def Reached (plan : Plan I α) (again : Value → Bool) (l : List (Entry α)) (later : Nat → List (Offer α) → Prop) :
    Found Int64 → Prop
  | .step _ => ∃ o passed left, later (passed.length + 1) left ∧
      Through plan again l [] [] ((o, true) :: passed) left
  | .nothing => Finished plan again l
  | .failed e => Failed plan again e l

theorem Failed.put {plan : Plan I α} {again : Value → Bool} {e : Failure} {l : List (Entry α)}
    (h : Failed plan again e l) (c : Int64) (message : Outcome Value) : Failed plan again e (.put c message :: l) := by
  obtain ⟨passed, o, left, ⟨call, ho, h⟩ | h⟩ := h
  · exact ⟨passed, o, left, Or.inl ⟨call, ho, h.put c message⟩⟩
  · exact ⟨passed, o, left, Or.inr (h.put c message)⟩

theorem Finished.put {plan : Plan I α} {again : Value → Bool} {l : List (Entry α)} (h : Finished plan again l)
    (c : Int64) (message : Outcome Value) : Finished plan again (.put c message :: l) := by
  obtain ⟨passed, h, hended⟩ := h
  exact ⟨passed, h.put c message, hended.transfer rfl rfl⟩

theorem Reached.mono {plan : Plan I α} {again : Value → Bool} {l : List (Entry α)}
    {later later' : Nat → List (Offer α) → Prop} {found : Found Int64} (h : Reached plan again l later found)
    (hlater : ∀ n left, later n left → later' n left) : Reached plan again l later' found := by
  cases found with
  | step x =>
    obtain ⟨o, passed, left, hleft, h⟩ := h
    exact ⟨o, passed, left, hlater _ _ hleft, h⟩
  | nothing => exact h
  | failed e => exact h

theorem Reached.put {plan : Plan I α} {again : Value → Bool} {l : List (Entry α)}
    {later : Nat → List (Offer α) → Prop} {found : Found Int64} (h : Reached plan again l later found) (c : Int64)
    (message : Outcome Value) : Reached plan again (.put c message :: l) later found := by
  cases found with
  | step x =>
    obtain ⟨o, passed, left, hleft, h⟩ := h
    exact ⟨o, passed, left, hleft, h.put c message⟩
  | nothing => exact Finished.put h c message
  | failed e => exact Failed.put h c message

section Walks

variable {plan : Plan I α} {again : Value → Bool}

theorem walk_passes {form : Form} {b : Scan (U × Post α) J α Q G Int64} {H : J → List α → Prop}
    (hnext : Feeds plan again form b.next H)
    (htest : ∀ q x i ws passed left, Through plan again ws.2.ledger [] [] passed (form.offer x i :: left) →
      (b.test q x i ws).Ensures (fun _ => True) fun r ws =>
        Decided plan again passed (form.offer x i) left ws.2.ledger r.1)
    (hstep : ∀ g x i ws passed left, Decided plan again passed (form.offer x i) left ws.2.ledger (.ok true) →
      (b.step g x i ws).Ensures (fun _ => True) fun _ ws =>
        Through plan again ws.2.ledger [] [] ((form.offer x i, true) :: passed) left) (n : Nat)
    (c : Walk J Q G) (ws : U × Post α) (xs : List α) (passed : List (Offer α × Bool)) (hsource : H c.source xs)
    (hindex : c.index = passed.length)
    (h : Through plan again ws.2.ledger [] [] passed (form.offersFrom passed.length xs)) :
    (Walk.next b n c ws).Ensures (fun _ => True) fun r ws =>
      Reached plan again ws.2.ledger (fun i left => ∃ xs, H r.2.source xs ∧ r.2.index = i ∧
        left = form.offersFrom i xs) r.1 := by
  induction n generalizing c ws xs passed with
  | zero => trivial
  | succ n ih =>
    rw [Walk.next]
    refine (hnext c.source ws xs passed hsource h).bind ?_
    rintro ⟨entry, source⟩ ws hr
    cases entry with
    | none => exact ⟨passed, hr⟩
    | some x =>
      obtain ⟨rest, hrest, hr⟩ := hr
      have hsucc : c.index + 1 = passed.length + 1 := congrArg (· + 1) hindex
      rw [Form.offersFrom_cons, ← hsucc, ← hindex] at hr
      refine (htest c.filter x c.index ws passed _ hr).bind ?_
      rintro ⟨verdict, filter⟩ ws hdecided
      cases verdict with
      | error e => exact ⟨passed, form.offer x c.index, _, Or.inl hdecided⟩
      | ok accepted =>
        cases accepted with
        | false =>
          rw [hsucc] at hdecided
          exact ih _ ws rest ((form.offer x c.index, false) :: passed) hrest hsucc hdecided
        | true =>
          refine (hstep c.consumer x c.index ws passed _ hdecided).bind fun r ws hr => ?_
          exact ⟨_, passed, _, ⟨rest, hrest, hsucc, by rw [hsucc]⟩, hr⟩

theorem range_walk_passes {filtered : Bool} {b : RangeScan (U × Post α) Q G Int64}
    (hended : ∀ l : List (Entry α), Ended again l plan)
    (htest : ∀ q i ws passed left, Through plan again ws.2.ledger [] [] passed (.number filtered i :: left) →
      (b.test q i ws).Ensures (fun _ => True) fun r ws =>
        Decided plan again passed (.number filtered i) left ws.2.ledger r.1)
    (hstep : ∀ g i ws passed left, Decided plan again passed (.number filtered i) left ws.2.ledger (.ok true) →
      (b.step g i ws).Ensures (fun _ => True) fun _ ws =>
        Through plan again ws.2.ledger [] [] ((.number filtered i, true) :: passed) left) (c : RangeWalk Q G)
    (ws : U × Post α) (passed : List (Offer α × Bool))
    (h : Through plan again ws.2.ledger [] [] passed ((integers c.current c.stop).map (.number filtered))) :
    (RangeWalk.next b c ws).Ensures (fun _ => True) fun r ws =>
      Reached plan again ws.2.ledger (fun _ left => left = (integers r.2.current r.2.stop).map (.number filtered))
        r.1 := by
  induction c using RangeWalk.turns generalizing ws passed with
  | done c hlt =>
    rw [RangeWalk.next_of_not_lt b hlt]
    rw [integers_of_not_lt hlt] at h
    exact ⟨passed, h, hended _⟩
  | turn c hlt ih =>
    rw [RangeWalk.next_of_lt b hlt]
    rw [integers_of_lt hlt, List.map_cons] at h
    refine (htest c.filter c.current ws passed _ h).bind ?_
    rintro ⟨verdict, filter⟩ ws hdecided
    cases verdict with
    | error e => exact ⟨passed, .number filtered c.current, _, Or.inl hdecided⟩
    | ok accepted =>
      cases accepted with
      | false => exact ih filter ws _ hdecided
      | true =>
        refine (hstep c.consumer c.current ws passed _ hdecided).bind fun r ws hr => ?_
        exact ⟨_, passed, _, rfl, hr⟩

end Walks

end Stepwise.Mail
