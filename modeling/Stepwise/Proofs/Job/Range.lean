import Stepwise.Proofs.Job.Passed
import Stepwise.Proofs.Loop

/-! # Loops over ranges

A loop over a range of integers is the loop over the list of these integers, and its arithmetic stays in the
range.

* `ranged_alike`: both loops make the same calls and give the same answers, with or without a filter. The walk
  over the range needs no fuel; the one over the list needs more than there are integers.
* `unfiltered_alike`: a loop without a filter is one whose filter accepts everything.
* `reached_within`: whenever a loop is polled, its walk lies between the two ends of the range, and no addition
  in the poll overflows.
* `range_eq_integers`: all this, and what a loop that comes to its end has passed.
-/

namespace Stepwise
set_option autoImplicit false
set_option synthInstance.maxSize 256

variable {W I α P G F β : Type}

/-! ## The list of the integers -/

/-- The call for an integer of a list, as the loop over a range makes it. -/
def Call.numbered : Call Int32 → Call α
  | .element x => .number x
  | .indexed x _ => .number x
  | .position i => .position i
  | .number i => .number i
  | .turn => .turn

/-- The calls of a loop over a list of integers, with the filter and the step of a loop over a range. -/
def Kit.overIntegers (k : Kit W I α P G F β) : Kit W (List Int32) Int32 P G F β where
  next := Next.ofList
  test p call := k.test p call.numbered
  step g call := k.step g call.numbered
  poll := k.poll
  isTrue := k.isTrue
  summand := k.summand

def Form.filteredIf (filtered : Bool) : Form := if filtered then .eachWhere else .each

/-- What a list that was looked into has still to give. -/
def Lookahead.Gives (a : Lookahead (List α) α) (xs : List α) : Prop :=
  a = { source := xs } ∨ ∃ x rest, xs = x :: rest ∧ a = { source := rest, seen := some (some x) }

theorem Lookahead.next_gives {a : Lookahead (List α) α} {xs : List α} (h : a.Gives xs) :
    (Lookahead.next Next.ofList a : Effect W _) = pure (xs.head?, { source := xs.tail }) := by
  obtain rfl | ⟨x, rest, rfl, rfl⟩ := h
  · cases xs <;> rfl
  · rfl

/-- The walk over the list is where the walk over the range is, and the fuel is enough for what is left. -/
structure RangeWalk.Listed (fuel : Nat) (p : RangeWalk P G) (c : Walk (Lookahead (List Int32) Int32) P G) : Prop where
  gives : c.source.Gives (integers p.current p.stop)
  filter : c.filter = p.filter
  consumer : c.consumer = p.consumer
  fuel : p.remaining < fuel

theorem RangeWalk.next_listed {b : RangeScan W P G F} {b' : Scan W (Lookahead (List Int32) Int32) Int32 P G F}
    (hnext : b'.next = Lookahead.next Next.ofList) (htest : ∀ q i n, b'.test q i n = b.test q i)
    (hstep : ∀ g i n, b'.step g i n = b.step g i) {fuel : Nat} {p : RangeWalk P G}
    {c : Walk (Lookahead (List Int32) Int32) P G} (h : p.Listed fuel c) {n : Nat} (hn : p.remaining < n) :
    Effect.Paired Equal (fun a a' w v => a.2.Listed fuel a'.2 ∧ Found.Paired Equal (Same Equal) a.1 a'.1 w v)
      (p.next b) (Walk.next b' n c) := by
  induction p using RangeWalk.turns generalizing c n with
  | done p hlt =>
    obtain ⟨n, rfl⟩ : ∃ m, n = m + 1 := ⟨n - 1, by omega⟩
    obtain ⟨hgives, hfilter, hconsumer, hfuel⟩ := h
    rw [integers_of_not_lt hlt] at hgives
    rw [RangeWalk.next_of_not_lt b hlt, Walk.next, hnext, Lookahead.next_gives hgives]
    refine Effect.Paired.pure fun w v hw => ⟨⟨.inl ?_, hfilter, hconsumer, hfuel⟩, hw⟩
    rw [integers_of_not_lt hlt]
    rfl
  | turn p hlt ih =>
    obtain ⟨n, rfl⟩ : ∃ m, n = m + 1 := ⟨n - 1, by omega⟩
    obtain ⟨hgives, hfilter, hconsumer, hfuel⟩ := h
    rw [integers_of_lt hlt] at hgives
    rw [RangeWalk.next_of_lt b hlt, Walk.next, hnext, Lookahead.next_gives hgives, pure_bind]
    simp only [List.head?_cons, List.tail_cons, htest, hfilter]
    refine (Effect.Paired.refl _).bind fun r r' w v hr => ?_
    obtain ⟨rfl, hw⟩ := hr
    obtain ⟨verdict, filter⟩ := r
    have hremaining := RangeWalk.remaining_of_lt hlt filter p.consumer
    cases verdict with
    | error e =>
      have hlater : RangeWalk.remaining { p with current := p.current + 1, filter } < fuel := by omega
      exact ⟨⟨.inl rfl, rfl, hconsumer, hlater⟩, rfl, hw⟩
    | ok accepted =>
      cases accepted with
      | false =>
        have hlater : RangeWalk.Listed fuel { p with current := p.current + 1, filter }
            { source := { source := integers (p.current + 1) p.stop }, filter, consumer := c.consumer,
              index := c.index + 1 } :=
          ⟨.inl rfl, rfl, hconsumer, by omega⟩
        exact ih filter hlater (by omega) w v hw
      | true =>
        change Ending.Paired _ _ ((b.step p.consumer p.current >>= _) w) _
        simp only [hstep, hconsumer]
        refine Ending.Paired.bind (Effect.Paired.refl _ w v hw) fun s s' w v hs => ?_
        obtain ⟨rfl, hw⟩ := hs
        have hlater : RangeWalk.remaining { p with current := p.current + 1, filter, consumer := s.2 } < fuel := by
          have hsucc := RangeWalk.remaining_of_lt hlt filter s.2
          omega
        exact ⟨⟨.inl rfl, rfl, rfl, hlater⟩, rfl, hw⟩

namespace Job

/-- The same place in the loop over the range and in the loop over the list. -/
inductive Ranged (filtered : Bool) (fuel : Nat) : Rest I α P G → Rest (List Int32) Int32 P G → Prop
  | walk {p : RangeWalk P G} {c : Walk (Lookahead (List Int32) Int32) P G} (h : p.Listed fuel c) :
      Ranged filtered fuel (.range filtered p) (.iterate (.filteredIf filtered) c)
  | last : Ranged filtered fuel (.last none) (.last none)

theorem alongside_ranged (filtered : Bool) (fuel : Nat) (isTrue : β → Bool) (summand : β → Int32) :
    Course.Alongside (Ranged filtered fuel : Rest I α P G → _ → Prop) (course isTrue summand)
      (course isTrue summand) where
  absorb h b := by
    cases h with
    | walk h => exact .some (.walk h)
    | last => exact .none
  total h := by cases h <;> rfl

theorem find_ranged (k : Kit W I α P G F β) (filtered : Bool) (fuel : Nat) {rest : Rest I α P G}
    {rest' : Rest (List Int32) Int32 P G} (h : Ranged filtered fuel rest rest') :
    Effect.Paired Equal (fun a a' w v => Ranged filtered fuel a.2 a'.2 ∧
      Found.Paired Equal (Same Equal) a.1 a'.1 w v) (rest.find k fuel) (rest'.find k.overIntegers fuel) := by
  cases h with
  | last => exact Effect.Paired.pure fun w v hw => ⟨.last, hw⟩
  | @walk p c h =>
    have htest : ∀ q i n, (k.overIntegers.scan (.filteredIf filtered)
        (Lookahead.next Next.ofList)).test q i n = (k.rangeScan filtered).test q i := by
      intro q i n
      cases filtered <;> rfl
    have hstep : ∀ g i n, (k.overIntegers.scan (.filteredIf filtered)
        (Lookahead.next Next.ofList)).step g i n = (k.rangeScan filtered).step g i := by
      intro g i n
      cases filtered <;> rfl
    have hwalk := RangeWalk.next_listed (b := k.rangeScan filtered) rfl htest hstep h h.fuel
    exact hwalk.bind fun a a' w v ha => ⟨.walk ha.1, ha.2⟩

/-- The loop over the list of the integers when it was made. -/
def listed (filtered : Bool) (start stop : Int32) (filter : P) (consumer : G) : Job (List Int32) Int32 P G F :=
  .iterate (.filteredIf filtered) (if start < stop then .running
    { step := { source := { source := integers (start + 1) stop, seen := some (some start) },
                filter, consumer } }
    else .empty)

theorem start_listed (k : Kit W I α P G F β) (fuel : Nat) (filtered : Bool) (start stop : Int32) (filter : P)
    (consumer : G) : Job.start k.overIntegers.next k.overIntegers.step fuel
      (.iterate (.filteredIf filtered) (integers start stop)) filter consumer =
        pure (listed filtered start stop filter consumer) := by
  by_cases h : start < stop
  · rw [integers_of_lt h, listed, if_pos h]
    rfl
  · rw [integers_of_not_lt h, listed, if_neg h]
    rfl

theorem ranged_alike (k : Kit W I α P G F β) (filtered : Bool) (start stop : Int32) (filter : P) (consumer : G)
    {fuel : Nat} (hfuel : (integers start stop).length < fuel) (w : W) :
    Poller.Alike (poll k fuel) (poll k.overIntegers fuel)
      (.range filtered (Loop.ofRange start stop filter consumer)) (listed filtered start stop filter consumer) := by
  have hplace : ∃ rest rest', Ranged filtered fuel rest rest' ∧
      view (.range filtered (Loop.ofRange start stop filter consumer) : Job I α P G F) = .ahead rest ∧
        view (listed filtered start stop filter consumer : Job (List Int32) Int32 P G F) = .ahead rest' := by
    by_cases h : start < stop
    · rw [Loop.ofRange, if_neg (Int32.not_le.mpr h), listed, if_pos h]
      refine ⟨_, _, .walk ⟨?_, rfl, rfl, ?_⟩, rfl, rfl⟩
      · rw [integers_of_lt h]
        exact .inr ⟨start, _, rfl, rfl⟩
      · rw [RangeWalk.remaining_eq_length]
        exact hfuel
    · rw [Loop.ofRange, if_pos (Int32.not_lt.mp h), listed, if_neg h]
      exact ⟨_, _, .last, rfl, rfl⟩
  obtain ⟨rest, rest', hrest, hview, hview'⟩ := hplace
  exact alike_of_alongside (alongside_ranged filtered fuel k.isTrue k.summand) (find_ranged k filtered fuel) rfl
    (Nat.add_zero fuel) (Nat.add_zero fuel) _ _ rfl rfl hrest hview hview' w

end Job

/-! ## Without a filter -/

/-- The kit with a filter that accepts everything. -/
def Kit.accepting (k : Kit W I α P G F β) : Kit W I α P G F β :=
  { k with test := fun p _ => pure (.ok true, p) }

namespace Job

/-- The same place in the loop without a filter and in the loop whose filter accepts everything. -/
inductive Unfiltered : Rest I α P G → Rest I α P G → Prop
  | walk (p : RangeWalk P G) : Unfiltered (.range false p) (.range true p)
  | last : Unfiltered (.last none) (.last none)

theorem find_unfiltered (k : Kit W I α P G F β) (n : Nat) {rest rest' : Rest I α P G}
    (h : Unfiltered rest rest') :
    Effect.Paired Equal (fun a a' w v => Unfiltered a.2 a'.2 ∧ Found.Paired Equal (Same Equal) a.1 a'.1 w v)
      (rest.find k n) (rest'.find k.accepting n) := by
  cases h with
  | last => exact Effect.Paired.pure fun w v hw => ⟨.last, hw⟩
  | walk p =>
    have hscan : k.accepting.rangeScan true = k.rangeScan false := rfl
    rw [Rest.find, Rest.find, hscan]
    refine (Effect.Paired.refl _).bind fun a a' w v ha => ?_
    obtain ⟨rfl, hw⟩ := ha
    obtain ⟨found, p⟩ := a
    cases found with
    | step x => exact ⟨.walk p, rfl, hw⟩
    | nothing => exact ⟨.walk p, hw⟩
    | failed e => exact ⟨.walk p, rfl, hw⟩

theorem unfiltered_alike (k : Kit W I α P G F β) (fuel : Nat) (start stop : Int32) (filter : P) (consumer : G)
    (w : W) : Poller.Alike (poll k fuel) (poll k.accepting fuel)
      (.range false (Loop.ofRange start stop filter consumer))
      (.range true (Loop.ofRange start stop filter consumer)) := by
  have hco : Course.Alongside (Unfiltered : Rest I α P G → Rest I α P G → Prop) (course k.isTrue k.summand)
      (course k.accepting.isTrue k.accepting.summand) :=
    { absorb := fun h b => by
        cases h with
        | walk p => exact .some (.walk p)
        | last => exact .none
      total := fun h => by cases h <;> rfl }
  have hplace : ∃ rest rest', Unfiltered rest rest' ∧
      view (.range false (Loop.ofRange start stop filter consumer) : Job I α P G F) = .ahead rest ∧
        view (.range true (Loop.ofRange start stop filter consumer) : Job I α P G F) = .ahead rest' := by
    rw [Loop.ofRange]
    by_cases h : stop ≤ start
    · rw [if_pos h]
      exact ⟨_, _, .last, rfl, rfl⟩
    · rw [if_neg h]
      exact ⟨_, _, .walk _, rfl, rfl⟩
  obtain ⟨rest, rest', hrest, hview, hview'⟩ := hplace
  exact alike_of_alongside hco (find_unfiltered k fuel) rfl (Nat.add_zero fuel) (Nat.add_zero fuel) _ _ rfl rfl
    hrest hview hview' w

end Job

/-! ## States that are reached -/

namespace Job

/-- A loop over a range whose walk lies within the range. -/
def WithinRange (start stop : Int32) : Job I α P G F → Prop
  | .range _ l => l.Keeps (RangeWalk.Within start stop)
  | _ => False

theorem poll_within (k : Kit W I α P G F β) (fuel : Nat) {start stop : Int32} {j : Job I α P G F}
    (h : j.WithinRange start stop) (w : W) :
    (poll k fuel j w).Ensures (fun _ => True) fun r _ => r.2.WithinRange start stop := by
  cases j with
  | range filtered l =>
    have hfind : ∀ (p : RangeWalk P G) (w : W), p.Within start stop →
        (p.next (k.rangeScan filtered) w).Ensures (fun _ => True) fun r _ => r.2.Within start stop :=
      fun p w hp => RangeWalk.next_within (k.rangeScan filtered) hp w
    have hpoll := Loop.poll_ensures hfind k.poll fuel h w
    rw [poll, unvalued]
    refine hpoll.bind fun r w hr => ?_
    exact hr
  | _ => exact h.elim

theorem ofRange_within (filtered : Bool) (start stop : Int32) (filter : P) (consumer : G) :
    (.range filtered (Loop.ofRange start stop filter consumer) : Job I α P G F).WithinRange start stop := by
  rw [Loop.ofRange]
  by_cases h : stop ≤ start
  · rw [if_pos h]
    trivial
  · rw [if_neg h]
    exact ⟨Int32.le_refl start, (Int32.le_total start stop).resolve_right h, rfl⟩

/-- Whatever happens between the polls, the walk lies within its range, and the next poll is the same with
additions that break down when they overflow or leave the range. -/
theorem reached_within (k : Kit W I α P G F β) (fuel : Nat) {filtered : Bool} {start stop : Int32} {filter : P}
    {consumer : G} {l : Loop (RangeWalk P G) F}
    (h : (poll k fuel).Reached (.range filtered (Loop.ofRange start stop filter consumer)) (.range filtered l)) :
    l.Keeps (RangeWalk.Within start stop) ∧
      l.poll (RangeWalk.next (k.rangeScan filtered)) k.poll fuel =
        l.poll (RangeWalk.checked (k.rangeScan filtered) start) k.poll fuel := by
  have hwithin : l.Keeps (RangeWalk.Within start stop) :=
    Poller.Reached.ensured (K := WithinRange start stop) (fun _ w hj => poll_within k fuel hj w)
      (ofRange_within filtered start stop filter consumer) h
  refine ⟨hwithin, Loop.poll_congr (fun p hp => ?_) (fun p w hp => ?_) k.poll fuel hwithin⟩
  · exact RangeWalk.next_eq_checked (k.rangeScan filtered) hp
  · exact RangeWalk.next_within (k.rangeScan filtered) hp w

/-! ## The whole statement -/

/-- A loop over the integers of a range and the loop over the list of these integers make the same calls in
the same order and give the same answers, with any filter, and to have no filter is to have one that accepts
everything. In every state that is reached the walk lies between the two ends of the range, and no addition
overflows. A loop that comes to its end has passed all integers of the range in ascending order, by a call of
its step if none of them was rejected. -/
theorem range_eq_integers (k : Kit W I α P G F β) (start stop : Int32) (filter : P) (consumer : G) {fuel : Nat}
    (hfuel : (integers start stop).length < fuel) :
    (∀ filtered gaps, answers k fuel (.range filtered start stop) filter consumer gaps =
      answers k.overIntegers fuel (.iterate (.filteredIf filtered) (integers start stop)) filter consumer gaps) ∧
    (∀ gaps, answers k fuel (.range false start stop) filter consumer gaps =
      answers k.accepting fuel (.range true start stop) filter consumer gaps) ∧
    (∀ filtered l, (poll k fuel).Reached (.range filtered (Loop.ofRange start stop filter consumer))
        (.range filtered l) →
      l.Keeps (RangeWalk.Within start stop) ∧
        l.poll (RangeWalk.next (k.rangeScan filtered)) k.poll fuel =
          l.poll (RangeWalk.checked (k.rangeScan filtered) start) k.poll fuel) ∧
    (∀ filtered gaps,
      (Poller.owned (fun _ o => o) (poll k.passing fuel)).asked gaps
          (.range filtered (Loop.ofRange start stop filter consumer), []) =
        (poll k fuel).asked gaps (.range filtered (Loop.ofRange start stop filter consumer)) ∧
      ∀ w, ((Poller.owned (fun passed _ => passed) (poll k.passing fuel)).asked gaps
          (.range filtered (Loop.ofRange start stop filter consumer), []) w).Ensures (fun _ => True)
        fun answers _ => ∀ passed, .ready (.ok passed) ∈ answers →
          passed.map Passed.number = integers start stop ∧
            ((∀ i, .rejected i ∉ passed) → passed = (integers start stop).map .visited)) ∧
    (integers start stop).length = (stop.toInt - start.toInt).toNat ∧
    ∀ j (h : j < (integers start stop).length), ((integers start stop)[j]).toInt = start.toInt + j := by
  refine ⟨fun filtered gaps => ?_, fun gaps => ?_, fun filtered l h => reached_within k fuel h,
    fun filtered gaps => ⟨?_, fun w => ?_⟩, length_integers start stop, fun j h => toInt_getElem_integers h⟩
  · rw [answers, answers, start_listed, Job.start, pure_bind, pure_bind]
    funext w
    exact congrFun ((ranged_alike k filtered start stop filter consumer hfuel w).asked_eq gaps) w
  · rw [answers, answers, Job.start, Job.start, pure_bind, pure_bind]
    funext w
    exact congrFun ((unfiltered_alike k fuel start stop filter consumer w).asked_eq gaps) w
  · funext w
    exact congrFun ((passing_alike k fuel filtered start stop filter consumer w).asked_eq gaps).symm w
  · refine (passed_all k fuel filtered start stop filter consumer gaps w).mono (fun _ h => h) ?_
    intro answers _ hpassed passed hmem
    refine ⟨hpassed passed hmem, fun hvisited => ?_⟩
    rw [← hpassed passed hmem]
    exact Passed.eq_visited hvisited

/-- Steps that wait once, with a filter that rejects zero. The calls of both are recorded. -/
def recordingNonzero : Kit (List (Call Unit)) Unit Unit Unit Unit Bool Unit :=
  { Kit.recording with
    test := fun p call => do
      Effect.changes (· ++ [call])
      pure (.ok (call != .number 0), p) }

theorem nonzero_eq_integers : (integers (-1) 2).length < 4 ∧
    (answers recordingNonzero.overIntegers 4 (.iterate .eachWhere (integers (-1) 2)) () ()
        [pure (), pure (), pure ()] []).Ensures (fun _ => False) fun answers calls =>
      answers.map Poll.resolution? = [none, none, some (.ok (.ok none))] ∧
        calls = [.number (-1), .number (-1), .number 0, .number 1, .number 1] := by
  have hfuel : (integers (-1) 2).length < 4 := by decide
  have heq := (range_eq_integers recordingNonzero (-1) 2 () () hfuel).1 true [pure (), pure (), pure ()]
  refine ⟨hfuel, ?_⟩
  have hsame := congrFun heq []
  rw [Form.filteredIf, if_pos rfl] at hsame
  rw [← hsame]
  decide +kernel

end Job

end Stepwise
