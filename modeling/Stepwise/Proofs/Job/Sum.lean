import Mathlib.Data.Int.ModEq
import Stepwise.Proofs.Job.Alike
import Stepwise.Proofs.Job.Within
import Stepwise.Proofs.Loop

/-! # Sums are loops that add up their values

A sum over a source, a list or a range makes the calls of the loop with the same steps, and comes to the sum of
the values of these steps in 32 bits.

* `exactSum` adds up in unbounded integers and wraps once; `eq_exactSum_iff` says which 32 bits these are.
* `Kit.tallying` enters the value of every step that resolves in a ledger of its own. It has no part in what the
  job does (`tallying_alike`).
* `Totalled`: the sum and the loop are in the same place. The sum looks into its source twice, with one look
  that is always empty after the loop was made.
* `simulation_total`: one turn of both. The running sum is the exact sum of what the ledger holds, before and
  after every step, whatever happened between the polls.
* `total_eq_tallied`: so a sum is the loop with a ledger that is added up at the end, and but for its value it
  answers what the loop answers.
-/

namespace Stepwise
set_option autoImplicit false

variable {W I J α P P' G F β : Type}

/-! ## Exact sums -/

/-- The sum of the values, in 32 bits. -/
def exactSum (values : List Int32) : Int32 := Int32.ofInt (values.map Int32.toInt).sum

theorem exactSum_concat (values : List Int32) (n : Int32) : exactSum (values ++ [n]) = exactSum values + n := by
  rw [exactSum, List.map_append, List.sum_append, Int32.ofInt_add, List.map_singleton, List.sum_singleton,
    Int32.ofInt_toInt]
  rfl

/-- The sum in 32 bits is the only integer of 32 bits that is congruent to the sum. -/
theorem eq_exactSum_iff {values : List Int32} {s : Int32} :
    s = exactSum values ↔ s.toInt ≡ (values.map Int32.toInt).sum [ZMOD (2 ^ 32 : Nat)] := by
  constructor
  · rintro rfl
    rw [exactSum, Int32.toInt_ofInt]
    exact Int.bmod_emod
  · intro h
    symm
    rw [exactSum, Int32.ofInt_eq_iff_bmod_eq_toInt]
    calc (values.map Int32.toInt).sum.bmod (2 ^ 32)
        = ((values.map Int32.toInt).sum % (2 ^ 32 : Nat)).bmod (2 ^ 32) := (Int.emod_bmod _ _).symm
      _ = (s.toInt % (2 ^ 32 : Nat)).bmod (2 ^ 32) := by rw [h.eq]
      _ = s.toInt.bmod (2 ^ 32) := Int.emod_bmod _ _
      _ = s.toInt := Int32.toInt_bmod s

/-! ## Ledgers -/

/-- The kit that enters what its steps add to a sum in a ledger of its own. -/
def Kit.tallying (k : Kit W I α P G F β) : Kit (W × List Int32) I α P G F β where
  next source := (k.next source).within _
  test p call := (k.test p call).within _
  step g call := (k.step g call).within _
  poll x := do
    let (answer, x) ← (k.poll x).within _
    match answer with
    | .ready (.ok b) => noting [k.summand b]
    | _ => pure ()
    pure (answer, x)
  isTrue := k.isTrue
  summand := k.summand

/-- What is entered when a step was polled. -/
def entered (summand : β → Int32) : Resolution β ⊕ F → List Int32
  | .inl (.ok (.ok b)) => [summand b]
  | _ => []

theorem Kit.tallying_stage (k : Kit W I α P G F β) (x : F) (w : W) (ledger : List Int32) :
    (k.poll.stage x w).Paired Beside
      (fun s s' w v => s = s' ∧ w = v.1 ∧ v.2 = ledger ++ entered k.summand s)
      (k.tallying.poll.stage x (w, ledger)) := by
  have hstage : k.tallying.poll.stage x = (k.poll.stage x).within _ >>= fun s =>
      noting (entered k.summand s) >>= fun _ => pure s := by
    simp only [Poller.stage, Kit.tallying, Effect.within_bind, bind_assoc]
    refine bind_congr fun r => ?_
    obtain ⟨answer, x⟩ := r
    have hnone : ∀ {A : Type} (a : A), (noting [] >>= fun _ => pure a : Effect (W × List Int32) A) = pure a := by
      intro A a
      funext ws
      exact congrArg (fun l => Ending.returned a (ws.1, l)) (List.append_nil ws.2)
    cases answer with
    | pending => exact (hnone _).symm
    | panicked cause => exact (hnone _).symm
    | ready o =>
      cases o with
      | error e => exact (hnone _).symm
      | ok b => rfl
  rw [hstage]
  refine (Ending.Paired.within (k.poll.stage x) w ledger).bind_right fun s s' w v hs => ?_
  obtain ⟨rfl, hw, hv⟩ := hs
  refine ⟨rfl, hw, ?_⟩
  rw [← hv]

namespace Job

theorem find_tallying (k : Kit W I α P G F β) (n : Nat) (rest : Rest I α P G) :
    rest.find k.tallying n = (rest.find k n).within _ :=
  Rest.find_within (fun _ => rfl) (fun _ _ => rfl) (fun _ _ => rfl) n rest

/-- The ledger has no part in what a job does. -/
theorem tallying_alike (k : Kit W I α P G F β) (n : Nat) (j : Job I α P G F) {extra : Nat} (hfit : j.Fits extra)
    {c : Rest I α P G} (hview : j.view = .ahead c) (ledger : List Int32) (w : W) :
    Poller.Alike (poll k n) (Poller.owned (fun _ o => o) (poll k.tallying n)) j (j, ledger) := by
  have hprivate : (Course.Tie.places Beside Eq (Same Beside) : Course.Tie W (W × List Int32) (Rest I α P G)
      (Rest I α P G) F F (Option Int32) (Option Int32)).Private :=
    { worlds := rfl
      ahead := fun h => ⟨h.2, fun _ => ⟨h.1, rfl⟩⟩
      under := fun h => ⟨h.2.2, fun _ => ⟨h.1, h.2.1, rfl⟩⟩ }
  have hstep : ∀ (x x' : F) (w : W) (v : W × List Int32), Same Beside x x' w v →
      (k.poll.stage x w).Paired Beside (Course.Stepped Beside (Same Beside)) (k.tallying.poll.stage x' v) := by
    rintro x _ w ⟨_, ledger⟩ ⟨rfl, rfl⟩
    refine (k.tallying_stage x w ledger).imp fun {s s' w v} hs => ?_
    obtain ⟨rfl, hw, -⟩ := hs
    cases s <;> exact ⟨rfl, hw⟩
  have hfind : ∀ {c c' : Rest I α P G}, c = c' → Effect.Paired Beside (fun a a' w v => a.2 = a'.2 ∧
      Found.Paired Beside (Same Beside) a.1 a'.1 w v) (Rest.find k n c) (Rest.find k.tallying n c') := by
    rintro c _ rfl w ⟨_, ledger⟩ rfl
    rw [find_tallying]
    refine (Ending.Paired.within (Rest.find k n c) w ledger).imp fun {a a' w v} ha => ?_
    obtain ⟨rfl, hw, -⟩ := ha
    obtain ⟨found, c⟩ := a
    cases found with
    | step x => exact ⟨rfl, rfl, hw⟩
    | nothing => exact ⟨rfl, hw⟩
    | failed e => exact ⟨rfl, rfl, hw⟩
  have sim := (Course.Alongside.refl (course (I := I) (α := α) (P := P) (G := G) k.isTrue k.summand)).simulation
    (fun h => Course.meet_paired hstep (hfind h)) hstep
  refine alike_owned_of_simulation hprivate (fun h => ⟨h.1.trans (Resolution.map_id _).symm, h.2⟩) sim rfl rfl
    j j hfit hfit (w := w) ?_
  rw [hview]
  exact ⟨rfl, rfl⟩

end Job

/-! ## Totals -/

/-- The source of a sum, which looks into it twice. -/
def Lookahead.twice (a : Lookahead I α) : Lookahead (Lookahead I α) α where
  source := { source := a.source }
  seen := a.seen

theorem Lookahead.next_twice (next : Next W I α) (a : Lookahead I α) :
    Lookahead.next (Lookahead.next next) a.twice = Lookahead.next next a >>= fun r => pure (r.1, r.2.twice) := by
  obtain ⟨source, seen⟩ := a
  cases seen with
  | some x => rfl
  | none =>
    simp only [Lookahead.next, Lookahead.twice, bind_assoc]
    rfl

/-- Two walks over a range at the same integer, with the same consumer. -/
def RangeWalk.Level (p : RangeWalk P G) (p' : RangeWalk P' G) : Prop :=
  p.current = p'.current ∧ p.stop = p'.stop ∧ p.consumer = p'.consumer

/-- Two walks that accept every integer. Their filters do not matter. -/
theorem RangeWalk.next_level (b : RangeScan W P G F) (b' : RangeScan W P' G F)
    (haccept : ∀ q i, b.test q i = pure (.ok true, q)) (haccept' : ∀ q i, b'.test q i = pure (.ok true, q))
    (hstep : ∀ g i, b'.step g i = b.step g i) {p : RangeWalk P G} {p' : RangeWalk P' G} (h : p.Level p') :
    Effect.Paired Equal (fun a a' w v => Found.Paired Equal (Same Equal) a.1 a'.1 w v ∧ a.2.Level a'.2)
      (p.next b) (p'.next b') := by
  obtain ⟨hcurrent, hstop, hconsumer⟩ := h
  by_cases hlt : p.current < p.stop
  · have hlt' : p'.current < p'.stop := hcurrent ▸ hstop ▸ hlt
    rw [next_of_lt b hlt, next_of_lt b' hlt', haccept, haccept', pure_bind, pure_bind]
    simp only [judge, hstep, ← hconsumer, ← hcurrent]
    refine (Effect.Paired.refl _).bind fun r r' w v hr => ?_
    obtain ⟨rfl, hw⟩ := hr
    exact ⟨⟨rfl, hw⟩, rfl, hstop, rfl⟩
  · have hlt' : ¬ p'.current < p'.stop := hcurrent ▸ hstop ▸ hlt
    rw [next_of_not_lt b hlt, next_of_not_lt b' hlt']
    exact Effect.Paired.pure fun w v hw => ⟨hw, hcurrent, hstop, hconsumer⟩

namespace Job

/-- The same place in a sum, which has come to `s`, and in a loop. -/
inductive Totalled (s : Int32) : Rest I α P G → Rest I α P G → Prop
  | source {c : Walk (Lookahead (Lookahead I α) α) Unit G} {c' : Walk (Lookahead I α) P G}
      (h : c.Level (fun a a' => a = a'.twice) c') : Totalled s (.sum s c) (.iterate .each c')
  | list {c : Walk (Lookahead (Lookahead (List α) α) α) Unit G} {c' : Walk (Lookahead (List α) α) P G}
      (h : c.Level (fun a a' => a = a'.twice) c') : Totalled s (.sumList s c) (.list .each c')
  | range {p : RangeWalk Unit G} {p' : RangeWalk P G} (h : p.Level p') :
      Totalled s (.sumRange s p) (.range false p')

theorem Totalled.absorb {s : Int32} {c c' : Rest I α P G} (h : Totalled s c c') (isTrue : β → Bool)
    (summand : β → Int32) (b : β) :
    ∃ d, (course isTrue summand).absorb c b = some d ∧ (course isTrue summand).absorb c' b = some c' ∧
      Totalled (s + summand b) d c' := by
  cases h with
  | source h => exact ⟨_, rfl, rfl, .source h⟩
  | list h => exact ⟨_, rfl, rfl, .list h⟩
  | range h => exact ⟨_, rfl, rfl, .range h⟩

theorem Totalled.total {s : Int32} {c c' : Rest I α P G} (h : Totalled s c c') (isTrue : β → Bool)
    (summand : β → Int32) :
    (course isTrue summand).total c = some s ∧ (course isTrue summand).total c' = none := by
  cases h <;> exact ⟨rfl, rfl⟩

theorem next_twice_paired (next : Next W J α) (a : Lookahead (Lookahead J α) α) (a' : Lookahead J α)
    (h : a = a'.twice) :
    Effect.Paired Equal (fun r r' w v => r.1 = r'.1 ∧ r.2 = r'.2.twice ∧ Equal 0 w v)
      (Lookahead.next (Lookahead.next next) a) (Lookahead.next next a') := by
  rw [h, Lookahead.next_twice]
  have hpair : Effect.Paired Equal (fun r r' w v => r.1 = r'.1 ∧ r.2 = r'.2.twice ∧ Equal 0 w v)
      (Lookahead.next next a' >>= fun r => pure (r.1, r.2.twice)) (Lookahead.next next a' >>= pure) := by
    refine (Effect.Paired.refl _).bind fun r r' w v hr => ?_
    obtain ⟨rfl, hw⟩ := hr
    exact ⟨rfl, rfl, hw⟩
  rwa [bind_pure] at hpair

/-- The walk of a sum and the walk of a loop. -/
theorem walk_twice (k : Kit W I α P G F β) (next : Next W J α) (n : Nat)
    {c : Walk (Lookahead (Lookahead J α) α) Unit G} {c' : Walk (Lookahead J α) P G}
    (h : c.Level (fun a a' => a = a'.twice) c') :
    Effect.Paired Equal (fun a a' w v => Found.Paired Equal (Same Equal) a.1 a'.1 w v ∧
        a.2.Level (fun a a' => a = a'.twice) a'.2)
      (Walk.next (k.plainScan (Lookahead.next (Lookahead.next next))) n c)
      (Walk.next (k.scan .each (Lookahead.next next)) n c') :=
  Walk.next_accepting_paired (fun _ _ _ => rfl) (fun _ _ _ => rfl) (next_twice_paired next)
    (fun g x _ => .requested_refl (k.step g (.element x))) n h

theorem find_totalled (k : Kit W I α P G F β) (n : Nat) {s : Int32} {c c' : Rest I α P G}
    (h : Totalled s c c') :
    Effect.Paired Equal (fun a a' w v => Totalled s a.2 a'.2 ∧ Found.Paired Equal (Same Equal) a.1 a'.1 w v)
      (Rest.find k n c) (Rest.find k n c') := by
  cases h with
  | source h => exact (walk_twice k k.next n h).bind fun a a' w v ha => ⟨.source ha.2, ha.1⟩
  | list h => exact (walk_twice k Next.ofList n h).bind fun a a' w v ha => ⟨.list ha.2, ha.1⟩
  | range h =>
    have hwalk : Effect.Paired Equal (fun a a' w v => Found.Paired Equal (Same Equal) a.1 a'.1 w v ∧
        a.2.Level a'.2) (RangeWalk.next k.plainRangeScan _) (RangeWalk.next (k.rangeScan false) _) :=
      RangeWalk.next_level k.plainRangeScan (k.rangeScan false) (fun _ _ => rfl) (fun _ _ => rfl)
        (fun _ _ => rfl) h
    exact hwalk.bind fun a a' w v ha => ⟨.range ha.2, ha.1⟩

/-- The sum of a ledger, whatever a job has come to. -/
def ledgerSum (ledger : List Int32) (_ : Option Int32) : Option Int32 := some (exactSum ledger)

/-- The sum has come to the exact sum of what is in the ledger of the loop. -/
def totalTie : Course.Tie W (W × List Int32) (Rest I α P G) (Rest I α P G) F F (Option Int32) (Option Int32) where
  worlds := Beside
  ahead _ c c' w v := w = v.1 ∧
    (Totalled (exactSum v.2) c c' ∨ c = .last (some (exactSum v.2)) ∧ c' = .last none)
  under _ a a' w v := a.1 = a'.1 ∧ w = v.1 ∧ Totalled (exactSum v.2) a.2 a'.2
  ends r r' w v := r = r'.map (ledgerSum v.2) ∧ w = v.1

theorem private_total : (totalTie : Course.Tie W (W × List Int32) (Rest I α P G) (Rest I α P G) F F
    (Option Int32) (Option Int32)).Private where
  worlds := rfl
  ahead h := ⟨h.1, fun _ => ⟨rfl, h.2⟩⟩
  under h := ⟨h.2.1, fun _ => ⟨h.1, rfl, h.2.2⟩⟩

section Turns

variable (k : Kit W I α P G F β) (n : Nat)

/-- A step that has resolved is added to the sum and entered in the ledger. -/
theorem total_judged (fuel : Nat) {c c' : Rest I α P G} (r : Resolution β) {w : W} {ledger : List Int32}
    (h : Totalled (exactSum ledger) c c') :
    totalTie.judged (course k.tallying.isTrue k.tallying.summand) (Rest.find k.tallying n) fuel
      ((course k.isTrue k.summand).judge c r) ((course k.tallying.isTrue k.tallying.summand).judge c' r) w
      (w, ledger ++ entered k.summand (.inl r : Resolution β ⊕ F)) := by
  match r with
  | .error cause => cases fuel <;> exact ⟨rfl, rfl⟩
  | .ok (.error e) => cases fuel <;> exact ⟨rfl, rfl⟩
  | .ok (.ok b) =>
    obtain ⟨d, habsorb, habsorb', hd⟩ := h.absorb k.isTrue k.summand b
    have hjudge : (course k.isTrue k.summand).judge c (.ok (.ok b)) = .inr d := by
      simp only [Course.judge, habsorb]
    have hjudge' : (course k.tallying.isTrue k.tallying.summand).judge c' (.ok (.ok b)) = .inr c' := by
      simp only [Course.judge, Kit.tallying, habsorb']
    rw [hjudge, hjudge']
    cases fuel with
    | zero => exact ⟨0, rfl⟩
    | succ fuel =>
      rw [← exactSum_concat] at hd
      exact ⟨rfl, .inl hd⟩

/-- Both sides meet what they have found in the same place. -/
theorem total_meet (fuel : Nat) {found : Found F} {c c' : Rest I α P G} {w : W} {ledger : List Int32}
    (h : Totalled (exactSum ledger) c c') :
    (Course.meet k.poll.stage (found, c) w).Paired Beside
      (totalTie.met (course k.isTrue k.summand) (course k.tallying.isTrue k.tallying.summand)
        (Rest.find k.tallying n) fuel) (Course.meet k.tallying.poll.stage (found, c') (w, ledger)) := by
  cases found with
  | nothing =>
    have hends : (Except.ok (Except.ok ((course k.isTrue k.summand).total c)) : Resolution (Option Int32)) =
        .ok (.ok (some (exactSum ledger))) := by rw [(h.total k.isTrue k.summand).1]
    exact ⟨hends, rfl⟩
  | failed e => exact ⟨rfl, rfl⟩
  | step x =>
    refine (k.tallying_stage x w ledger).bind fun s s' w v hs => ?_
    obtain ⟨w', ledger'⟩ := v
    obtain ⟨rfl, rfl, rfl⟩ := hs
    cases s with
    | inl r => exact total_judged k n fuel r h
    | inr y =>
      refine ⟨rfl, rfl, ?_⟩
      rw [show ledger ++ entered k.summand (.inr y : Resolution β ⊕ F) = ledger from List.append_nil ledger]
      exact h

theorem simulation_total :
    Course.Simulation totalTie (course k.isTrue k.summand) (Rest.find k n) k.poll.stage
      (course (I := I) (α := α) (P := P) (G := G) k.tallying.isTrue k.tallying.summand) (Rest.find k.tallying n)
      k.tallying.poll.stage where
  more h := h
  under {fuel x c x' c' w v} h := by
    obtain ⟨_, ledger⟩ := v
    obtain ⟨hx, rfl, h⟩ := h
    obtain rfl : x = x' := hx
    exact total_meet k n fuel h
  ahead {fuel c c' w v} h := by
    obtain ⟨_, ledger⟩ := v
    obtain ⟨rfl, h | ⟨rfl, rfl⟩⟩ := h
    · rw [find_tallying]
      have hfind := (find_totalled k n h w w rfl).beside ledger
      refine hfind.bind fun a a' w v ha => ?_
      obtain ⟨found, c⟩ := a
      obtain ⟨found', c'⟩ := a'
      obtain ⟨w', ledger'⟩ := v
      obtain ⟨⟨hplace, hfound⟩, rfl⟩ := ha
      obtain ⟨rfl, hw⟩ := hfound.eq
      obtain rfl : w = w' := hw
      exact total_meet k n fuel hplace
    · exact ⟨rfl, rfl⟩

end Turns

end Job

/-! ## Sums and loops when they are made -/

/-- What a sum runs over. -/
inductive Total (I α : Type)
  | source (source : I)
  | list (elements : List α)
  | range (start stop : Int32)

/-- The plan of the sum. -/
def Total.sum : Total I α → Plan I α
  | .source i => .sum i
  | .list elements => .sumList elements
  | .range start stop => .sumRange start stop

/-- The plan of the loop over the same. -/
def Total.loop : Total I α → Plan I α
  | .source i => .iterate .each i
  | .list elements => .list .each elements
  | .range start stop => .range false start stop

/-- There is nothing to run over; to find this out leads from `w` to `w'`. -/
def Total.Nothing (next : Next W I α) (w w' : W) : Total I α → Prop
  | .source i => ∃ i', next i w = .returned (none, i') w'
  | .list elements => elements = [] ∧ w' = w
  | .range start stop => stop ≤ start ∧ w' = w

/-- The sum over nothing. -/
def Total.zero : Total I α → Job I α P G F
  | .source _ => .sum .zero
  | .list _ => .sumList .zero
  | .range _ _ => .sumRange .zero

/-- The sum over a source that has given its first answer. -/
def Summation.looked (entry : Option α) (source : I) (consumer : G) :
    Summation (Loop (Walk (Lookahead (Lookahead I α) α) Unit G) F) :=
  match entry with
  | none => .zero
  | some x => .running 0 (.running
      { step := { source := Lookahead.twice { source, seen := some (some x) }, filter := (), consumer } })

/-- A source is asked once when a sum over it is made. -/
theorem Summation.ofSource_eq (next : Next W I α) (source : I) (consumer : G) :
    (Summation.ofSource next source consumer : Effect W (Summation (Loop _ F))) =
      next source >>= fun r => pure (.looked r.1 r.2 consumer) := by
  rw [Summation.ofSource, Lookahead.peek, bind_assoc]
  refine bind_congr fun r => ?_
  obtain ⟨entry, source⟩ := r
  cases entry <;> rfl

namespace Job

/-- A sum and the loop over the same when they were made. -/
def Made (n : Nat) (j j' : Job I α P G F) : Prop :=
  j.Fits 0 ∧ j'.Fits 0 ∧ (∃ c, j'.view = .ahead c) ∧
    ∀ (W : Type) (w : W), totalTie.begun n j.view j'.view w (w, [])

theorem made_looked (n : Nat) (entry : Option α) (source : I) (filter : P) (consumer : G) :
    Made n (.sum (.looked entry source consumer) : Job I α P G F)
      (.iterate .each (.looked entry source filter consumer)) := by
  cases entry with
  | none => exact ⟨rfl, rfl, ⟨_, rfl⟩, fun W w => ⟨rfl, .inr ⟨rfl, rfl⟩⟩⟩
  | some x => exact ⟨rfl, rfl, ⟨_, rfl⟩, fun W w => ⟨rfl, .inl (.source ⟨rfl, rfl, rfl⟩)⟩⟩

theorem made_looked_list (n : Nat) (entry : Option α) (elements : List α) (filter : P) (consumer : G) :
    Made n (.sumList (.looked entry elements consumer) : Job I α P G F)
      (.list .each (.looked entry elements filter consumer)) := by
  cases entry with
  | none => exact ⟨rfl, rfl, ⟨_, rfl⟩, fun W w => ⟨rfl, .inr ⟨rfl, rfl⟩⟩⟩
  | some x => exact ⟨rfl, rfl, ⟨_, rfl⟩, fun W w => ⟨rfl, .inl (.list ⟨rfl, rfl, rfl⟩)⟩⟩

theorem made_range (n : Nat) (start stop : Int32) (filter : P) (consumer : G) :
    Made n (.sumRange (Summation.ofRange start stop consumer) : Job I α P G F)
      (.range false (Loop.ofRange start stop filter consumer)) := by
  rw [Summation.ofRange, Loop.ofRange, Loop.ofRange]
  by_cases h : stop ≤ start
  · rw [if_pos h, if_pos h]
    exact ⟨rfl, rfl, ⟨_, rfl⟩, fun W w => ⟨rfl, .inr ⟨rfl, rfl⟩⟩⟩
  · rw [if_neg h, if_neg h, if_neg h]
    exact ⟨rfl, rfl, ⟨_, rfl⟩, fun W w => ⟨rfl, .inl (.range ⟨rfl, rfl, rfl⟩)⟩⟩

theorem start_made (k : Kit W I α P G F β) (n : Nat) (t : Total I α) (filter : P) (consumer : G) :
    Effect.Paired Equal (fun j j' w v => Made n j j' ∧ w = v)
      (Job.start k.next k.step n t.sum filter consumer) (Job.start k.next k.step n t.loop filter consumer) := by
  cases t with
  | source source =>
    simp only [Total.sum, Total.loop, Job.start, Summation.ofSource_eq, Loop.ofSource_eq, bind_assoc, pure_bind]
    refine (Effect.Paired.refl (k.next source)).bind fun r r' w v hr => ?_
    obtain ⟨rfl, hw⟩ := hr
    exact ⟨made_looked n r.1 r.2 filter consumer, hw⟩
  | list elements =>
    simp only [Total.sum, Total.loop, Job.start, Summation.ofSource_eq, Loop.ofSource_eq, bind_assoc, pure_bind]
    refine (Effect.Paired.refl (Next.ofList elements)).bind fun r r' w v hr => ?_
    obtain ⟨rfl, hw⟩ := hr
    exact ⟨made_looked_list n r.1 r.2 filter consumer, hw⟩
  | range start stop =>
    intro w v hw
    exact ⟨made_range n start stop filter consumer, hw⟩

/-! ## Sums as loops with a ledger -/

section Made

variable {k : Kit W I α P G F β} {n : Nat} {j j' : Job I α P G F}

theorem Made.tallied (h : Made n j j') (w : W) :
    Poller.Alike (poll k n) (Poller.owned ledgerSum (poll k.tallying n)) j (j', []) :=
  alike_owned_of_simulation private_total (fun h => h) (simulation_total k n) (Nat.add_zero n) (Nat.add_zero n)
    j j' h.1 h.2.1 (h.2.2.2 W w)

/-- But for the values, the sum and the loop give the same answers. -/
theorem Made.valueless (h : Made n j j') (w : W) :
    Poller.Alike ((poll k n).map fun _ => ()) ((poll k n).map fun _ => ()) j j' := by
  obtain ⟨c, hview⟩ := h.2.2.1
  have hsum := (h.tallied (k := k) w).map fun _ => ()
  have hloop := (tallying_alike k n j' h.2.1 hview [] w).map fun _ => ()
  rw [Poller.owned_map] at hsum hloop
  exact hsum.trans hloop.symm

end Made

/-- A sum is the loop over the same with a ledger that is added up at the end. -/
theorem total_eq_tallied (k : Kit W I α P G F β) (n : Nat) (t : Total I α) (filter : P) (consumer : G)
    (gaps : List (Effect W Unit)) : answers k n t.sum filter consumer gaps =
      Job.start k.next k.step n t.loop filter consumer >>= fun j =>
        (Poller.owned ledgerSum (poll k.tallying n)).asked gaps (j, []) := by
  refine Effect.Paired.eq ((start_made k n t filter consumer).bind fun j j' w v hj => ?_)
  obtain ⟨hmade, hw⟩ := hj
  rw [(hmade.tallied w).asked_eq gaps]
  exact Effect.Paired.refl _ w v hw

/-- A sum waits, fails and comes to its end in the same polls as the loop over the same, and the two do the same
in the world. -/
theorem total_answers (k : Kit W I α P G F β) (n : Nat) (t : Total I α) (filter : P) (consumer : G)
    (gaps : List (Effect W Unit)) :
    (answers k n t.sum filter consumer gaps >>= fun a => pure (a.map (Poll.map fun _ => ()))) =
      answers k n t.loop filter consumer gaps >>= fun a => pure (a.map (Poll.map fun _ => ())) := by
  rw [answers, answers, bind_assoc, bind_assoc]
  refine Effect.Paired.eq ((start_made k n t filter consumer).bind fun j j' w v hj => ?_)
  obtain ⟨hmade, hw⟩ := hj
  rw [← Poller.asked_map, ← Poller.asked_map, (hmade.valueless w).asked_eq gaps]
  exact Effect.Paired.refl _ w v hw

/-- A sum over nothing is made without a call of its step. It gives zero in every poll. -/
theorem start_of_nothing (k : Kit W I α P G F β) (n : Nat) {t : Total I α} {w w' : W}
    (h : t.Nothing k.next w w') (filter : P) (consumer : G) :
    Job.start k.next k.step n t.sum filter consumer w = .returned t.zero w' ∧
      poll k n (t.zero : Job I α P G F) = pure (.ready (.ok (some 0)), t.zero) := by
  cases t with
  | source i =>
    obtain ⟨i', hnone⟩ := h
    refine ⟨?_, rfl⟩
    rw [Total.sum, Job.start, Summation.ofSource_eq, bind_assoc, Effect.bind_of_returned _ hnone]
    rfl
  | list elements =>
    obtain ⟨rfl, rfl⟩ := h
    exact ⟨rfl, rfl⟩
  | range start stop =>
    obtain ⟨hle, rfl⟩ := h
    refine ⟨?_, rfl⟩
    rw [Total.sum, Job.start, Summation.ofRange, if_pos hle]
    rfl

end Job

end Stepwise
