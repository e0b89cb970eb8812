import Stepwise.Proofs.Job.Find

/-! # Loops over elements are `for` loops

`forEach` is the loop that a reader has in mind: take the next element with its number, ask the filter,
and if it accepts wait for the step to resolve before the next element is taken. Nothing is asked ahead
of time, nothing is kept between two polls, and the first failure ends it.

* The elements come from a function `pull` that sees nothing but the state of the source. Filter, step
  and poll are effects on any world, which may hold a log of their calls and whatever decides how often
  a step waits.
* `awaited_iff_forEach`: making a loop over a source or over a list calls neither filter nor step, and
  polling it until it resolves comes to an ending exactly if the `for` loop comes to it.
-/

namespace Stepwise
set_option autoImplicit false

variable {W I J α P G F β : Type}

namespace Job

/-- A source whose elements depend on nothing but its own state. -/
def pulling (pull : J → Option α × J) : Next W J α := fun source => pure (pull source)

def pullList : List α → Option α × List α
  | [] => (none, [])
  | x :: rest => (some x, rest)

/-- The sequential loop over the elements of a source, from the element with this index on. The fuel
bounds the number of elements and of polls. A loop over elements has no value. -/
def forEach (k : Kit W I α P G F β) (form : Form) (pull : J → Option α × J) (gap : W → W) :
    Nat → J → P → G → Nat → Effect W (Resolution (Option Int32))
  | 0, _, _, _, _ => Effect.cut
  | fuel + 1, source, filter, consumer, i =>
    match pull source with
    | (none, _) => pure (.ok (.ok none))
    | (some x, source) => do
      let (verdict, filter) ← (match form.test with
        | none => pure (.ok true, filter)
        | some arguments => k.test filter (arguments.call x i))
      match verdict with
      | .error e => pure (.ok (.error e))
      | .ok false => forEach k form pull gap fuel source filter consumer (i + 1)
      | .ok true => do
        let (step, consumer) ← k.step consumer (form.step.call x i)
        let r ← k.poll.stage.finish gap fuel step
        match r with
        | .error p => pure (.error p)
        | .ok (.error e) => pure (.ok (.error e))
        | .ok (.ok _) => forEach k form pull gap fuel source filter consumer (i + 1)

/-! ## The walk of a loop over elements -/

/-- What a walk goes on with after an element. -/
def walkPast (k : Kit W I α P G F β) (form : Form) (n : Nat) (c : Walk J P G) (x : α) (source : J)
    (next : Next W J α) : Effect W (Found F × Walk J P G) := do
  let (verdict, filter) ← (k.scan form next).test c.filter x c.index
  match verdict with
  | .error e => pure (.failed e, { c with source, filter, index := c.index + 1 })
  | .ok false => Walk.next (k.scan form next) n { c with source, filter, index := c.index + 1 }
  | .ok true => do
    let (step, consumer) ← k.step c.consumer (form.step.call x c.index)
    pure (.step step, { source, filter, consumer, index := c.index + 1 })

theorem walk_pulling (k : Kit W I α P G F β) (form : Form) (pull : J → Option α × J) (n : Nat)
    (c : Walk J P G) :
    Walk.next (k.scan form (pulling pull)) (n + 1) c =
      match pull c.source with
      | (none, source) => pure (.nothing, { c with source })
      | (some x, source) => walkPast k form n c x source (pulling pull) := by
  rw [Walk.next]
  change (pure (pull c.source) >>= _) = _
  rw [pure_bind]
  obtain ⟨entry, source⟩ := pull c.source
  cases entry with
  | none => rfl
  | some x =>
    refine bind_congr fun r => ?_
    obtain ⟨verdict, filter⟩ := r
    cases verdict with
    | error e => rfl
    | ok accepted => cases accepted <;> rfl

/-! ## The same loop as a course -/

/-- What the sequential loop does with an element. -/
def forEachPast (k : Kit W I α P G F β) (form : Form) (pull : J → Option α × J) (gap : W → W)
    (fuel : Nat) (x : α) (source : J) (filter : P) (consumer : G) (i : Nat) :
    Effect W (Resolution (Option Int32)) := do
  let (verdict, filter) ← (k.scan form (pulling pull)).test filter x i
  match verdict with
  | .error e => pure (.ok (.error e))
  | .ok false => forEach k form pull gap fuel source filter consumer (i + 1)
  | .ok true => do
    let (step, consumer) ← k.step consumer (form.step.call x i)
    let r ← k.poll.stage.finish gap fuel step
    match r with
    | .error p => pure (.error p)
    | .ok (.error e) => pure (.ok (.error e))
    | .ok (.ok _) => forEach k form pull gap fuel source filter consumer (i + 1)

theorem forEach_succ (k : Kit W I α P G F β) (form : Form) (pull : J → Option α × J) (gap : W → W)
    (fuel : Nat) (source : J) (filter : P) (consumer : G) (i : Nat) :
    forEach k form pull gap (fuel + 1) source filter consumer i =
      match pull source with
      | (none, _) => pure (.ok (.ok none))
      | (some x, source) => forEachPast k form pull gap fuel x source filter consumer i := rfl

section Walks

variable {k : Kit W I α P G F β} {form : Form} {pull : J → Option α × J} {gap : W → W}
  {co : Course (Rest I α P G) β (Option Int32)} {locate : Walk J P G → Rest I α P G}
  {finds : Nat → Rest I α P G → Effect W (Found F × Rest I α P G)}

/-- The course of a loop over elements, carried through from this place on: `n` bounds the elements
that are passed until the next step, `i` the steps. -/
def carryWalk (k : Kit W I α P G F β) (form : Form) (pull : J → Option α × J) (gap : W → W)
    (co : Course (Rest I α P G) β (Option Int32)) (locate : Walk J P G → Rest I α P G)
    (finds : Nat → Rest I α P G → Effect W (Found F × Rest I α P G)) (N i n : Nat)
    (c : Walk J P G) : Effect W (Resolution (Option Int32)) := do
  let (found, c) ← Walk.next (k.scan form (pulling pull)) n c
  co.carry (finds N) (k.poll.stage.finish gap N) i (found, locate c)

variable (hfind : ∀ N c, finds N (locate c) =
    located locate (Walk.next (k.scan form (pulling pull)) N c))
  (habsorb : ∀ c b, co.absorb (locate c) b = some (locate c))
  (htotal : ∀ c, co.total (locate c) = none)
include hfind habsorb

theorem further_walk (N i : Nat) (c : Walk J P G) (b : β) :
    co.further (finds N) (k.poll.stage.finish gap N) (i + 1) (locate c) (.ok (.ok b)) =
      carryWalk k form pull gap co locate finds N i N c := by
  have hj : co.judge (locate c) (.ok (.ok b)) = .inr (locate c) := by
    simp only [Course.judge, habsorb]
  rw [Course.further_succ _ _ _ hj, hfind, located_bind]
  rfl

include htotal

theorem forEach_below_carryWalk {M N i n : Nat} (hN : M ≤ N) (hi : M ≤ i) (hn : M ≤ n) (c : Walk J P G) :
    (forEach k form pull gap M c.source c.filter c.consumer c.index).Below
      (carryWalk k form pull gap co locate finds N i n c) := by
  induction M generalizing i n c with
  | zero => exact Effect.Below.cut _
  | succ M ih =>
    obtain ⟨n, rfl⟩ : ∃ m, n = m + 1 := ⟨n - 1, by omega⟩
    obtain ⟨i, rfl⟩ : ∃ m, i = m + 1 := ⟨i - 1, by omega⟩
    rw [forEach_succ, carryWalk, walk_pulling]
    obtain ⟨entry, source⟩ := pull c.source
    cases entry with
    | none =>
      refine Effect.Below.of_eq ?_
      change _ = co.carry (finds N) (k.poll.stage.finish gap N) (i + 1)
        (.nothing, locate { c with source })
      rw [Course.carry_nothing, htotal]
    | some x =>
      simp only [walkPast, bind_assoc]
      refine (Effect.Below.refl _).bind fun r => ?_
      obtain ⟨verdict, filter⟩ := r
      cases verdict with
      | error e =>
        exact Effect.Below.of_eq (Course.carry_failed co (finds N)
          (k.poll.stage.finish gap N) (i + 1) e (locate ⟨source, filter, c.consumer, c.index + 1⟩)).symm
      | ok accepted =>
        cases accepted with
        | false => exact ih (by omega) (by omega) (by omega) ⟨source, filter, c.consumer, c.index + 1⟩
        | true =>
          simp only [bind_assoc]
          refine (Effect.Below.refl _).bind fun r => ?_
          obtain ⟨step, consumer⟩ := r
          change Effect.Below _ (co.carry (finds N) (k.poll.stage.finish gap N) (i + 1)
            (.step step, locate ⟨source, filter, consumer, c.index + 1⟩))
          rw [Course.carry_step]
          refine (Stage.finish_below (by omega) step).bind fun r => ?_
          cases r with
          | error p => exact Effect.Below.refl _
          | ok o =>
            cases o with
            | error e => exact Effect.Below.refl _
            | ok b =>
              rw [further_walk hfind habsorb]
              exact ih (by omega) (by omega) (by omega) ⟨source, filter, consumer, c.index + 1⟩

theorem carryWalk_below_forEach {M N i n : Nat} (hM : n + i * (N + 1) + N ≤ M) (c : Walk J P G) :
    (carryWalk k form pull gap co locate finds N i n c).Below
      (forEach k form pull gap M c.source c.filter c.consumer c.index) := by
  induction M generalizing i n c with
  | zero =>
    obtain rfl : n = 0 := by omega
    exact Effect.Below.cut _
  | succ M ih =>
    cases n with
    | zero => exact Effect.Below.cut _
    | succ n =>
      rw [forEach_succ, carryWalk, walk_pulling]
      obtain ⟨entry, source⟩ := pull c.source
      cases entry with
      | none =>
        refine Effect.Below.of_eq ?_
        change co.carry (finds N) (k.poll.stage.finish gap N) i
          (.nothing, locate { c with source }) = _
        rw [Course.carry_nothing, htotal]
      | some x =>
        simp only [walkPast, bind_assoc]
        refine (Effect.Below.refl _).bind fun r => ?_
        obtain ⟨verdict, filter⟩ := r
        cases verdict with
        | error e =>
          exact Effect.Below.of_eq (Course.carry_failed co (finds N)
            (k.poll.stage.finish gap N) i e (locate ⟨source, filter, c.consumer, c.index + 1⟩))
        | ok accepted =>
          cases accepted with
          | false => exact ih (by omega) ⟨source, filter, c.consumer, c.index + 1⟩
          | true =>
            simp only [bind_assoc]
            refine (Effect.Below.refl _).bind fun r => ?_
            obtain ⟨step, consumer⟩ := r
            change Effect.Below (co.carry (finds N) (k.poll.stage.finish gap N) i
              (.step step, locate ⟨source, filter, consumer, c.index + 1⟩)) _
            rw [Course.carry_step]
            refine (Stage.finish_below (by omega) step).bind fun r => ?_
            cases r with
            | error p => exact Effect.Below.of_eq (Course.further_of_inl _ _ i rfl)
            | ok o =>
              cases o with
              | error e => exact Effect.Below.of_eq (Course.further_of_inl _ _ i rfl)
              | ok b =>
                cases i with
                | zero =>
                  have hj : co.judge (locate ⟨source, filter, consumer, c.index + 1⟩) (.ok (.ok b)) =
                      .inr (locate ⟨source, filter, consumer, c.index + 1⟩) := by
                    simp only [Course.judge, habsorb]
                  rw [Course.further_zero _ _ hj]
                  exact Effect.Below.cut _
                | succ i =>
                  rw [further_walk hfind habsorb]
                  have hmul : (i + 1) * (N + 1) = i * (N + 1) + (N + 1) := Nat.succ_mul i (N + 1)
                  exact ih (by omega) ⟨source, filter, consumer, c.index + 1⟩

end Walks

/-! ## Elements that were asked for ahead of time -/

/-- The elements of a source of which an answer may have been kept back. -/
def aheadOf (pull : J → Option α × J) (a : Lookahead J α) : Option α × Lookahead J α :=
  match a.seen with
  | some entry => (entry, { a with seen := none })
  | none => ((pull a.source).1, { source := (pull a.source).2 })

theorem next_pulling (pull : J → Option α × J) :
    Lookahead.next (pulling (W := W) pull) = pulling (aheadOf pull) := by
  funext a
  obtain ⟨source, seen⟩ := a
  cases seen <;> rfl

theorem forEach_aheadOf (k : Kit W I α P G F β) (form : Form) (pull : J → Option α × J)
    (gap : W → W) (n : Nat) (source : J) (filter : P) (consumer : G) (i : Nat) :
    forEach k form (aheadOf pull) gap n { source } filter consumer i =
      forEach k form pull gap n source filter consumer i := by
  induction n generalizing source filter consumer i with
  | zero => rfl
  | succ n ih =>
    obtain ⟨⟨entry, rest⟩, h⟩ : ∃ r, pull source = r := ⟨_, rfl⟩
    have hpull : aheadOf pull { source } = (entry, { source := rest }) := by
      simp only [aheadOf, h]
    rw [forEach_succ, forEach_succ, hpull, h]
    cases entry with
    | none => rfl
    | some x =>
      refine bind_congr fun r => ?_
      obtain ⟨verdict, filter⟩ := r
      cases verdict with
      | error e => rfl
      | ok accepted =>
        cases accepted with
        | false => exact ih rest filter consumer (i + 1)
        | true =>
          refine bind_congr fun r => bind_congr fun r' => ?_
          cases r' with
          | error p => rfl
          | ok o =>
            cases o with
            | error e => rfl
            | ok b => exact ih rest filter r.2 (i + 1)

/-- To have kept the first answer back makes no difference. -/
theorem forEach_seen (k : Kit W I α P G F β) (form : Form) (pull : J → Option α × J) (gap : W → W)
    (n : Nat) {source rest : J} {entry : Option α} (h : pull source = (entry, rest)) (filter : P)
    (consumer : G) (i : Nat) :
    forEach k form (aheadOf pull) gap n { source := rest, seen := some entry } filter consumer i =
      forEach k form pull gap n source filter consumer i := by
  have hahead := forEach_aheadOf k form pull gap n source filter consumer i
  cases n with
  | zero => rfl
  | succ n =>
    rw [← hahead, forEach_succ, forEach_succ]
    have hpull : aheadOf pull { source } = (entry, { source := rest }) := by
      simp only [aheadOf, h]
    rw [hpull]
    rfl

/-! ## Awaiting a loop over elements -/

/-- Poll a job until it resolves. -/
def awaited (k : Kit W I α P G F β) (gap : W → W) (fuel polls : Nat) (j : Job I α P G F) :
    Effect W (Resolution (Option Int32)) :=
  (Poller.stage (poll k fuel)).finish gap polls j

/-- Making the job does nothing in the world, and then polling it until it resolves comes to an ending
exactly if this way to run it does, with enough polls and fuel on either side. -/
def RunsAs (k : Kit W I α P G F β) (gap : W → W) (plan : Plan I α) (filter : P) (consumer : G)
    (reference : Nat → Effect W (Resolution (Option Int32))) : Prop :=
  ∃ job, (∀ fuel, Job.start k.next k.step fuel plan filter consumer = pure job) ∧
    ∀ w e, e.isCut = false →
      ((∃ fuel polls, awaited k gap fuel polls job w = e) ↔ ∃ fuel, reference fuel w = e)

theorem eventually_finish_of_awaited {k : Kit W I α P G F β} {gap : W → W} {fuel polls : Nat}
    {j : Job I α P G F} {w : W} {e : Ending W (Resolution (Option Int32))} (he : e.isCut = false)
    (h : awaited k gap fuel polls j w = e) :
    ∀ᶠ N in Filter.atTop, finish k (k.poll.stage.finish gap N) N j w = e := by
  -- Nothing is said of the worlds while the job waits.
  let R : W → W → Prop := fun _ _ => True
  have hrefl : Std.Refl R := ⟨fun _ => trivial⟩
  have htrans : Trans R R R := ⟨fun _ _ => trivial⟩
  have hkeeps : k.Keeps R := ⟨fun _ _ => trivial, fun _ _ _ => trivial, fun _ _ _ => trivial⟩
  have hsteps : ∀ m x w, (k.poll.stage.await k.poll.stage gap m x w).Tracks R
      fun N => k.poll.stage.finish gap N x w :=
    Stage.tracks_finish (fun _ _ => trivial) (fun _ => trivial)
  have hbelow : ∀ᶠ N : Nat in Filter.atTop, ∀ g call, (k.step g call).Below (k.step g call) :=
    .of_forall fun _ _ _ => Effect.Below.refl _
  have htrack : ((Poller.stage (poll k fuel)).await (Poller.stage (poll k fuel)) gap polls j
      w).Tracks R fun N => finish k (k.poll.stage.finish gap N) N j w :=
    tracks_finish k k.step k.step k.poll k.poll (fun _ => k.step) (fun _ => hkeeps)
      (fun _ _ _ => trivial) hbelow hbelow polls (fun m _ => hsteps m) (hsteps polls) fuel fuel j w
  rw [awaited, Stage.finish] at h
  cases ha : (Poller.stage (poll k fuel)).await (Poller.stage (poll k fuel)) gap polls j w with
  | cut v => rw [Effect.bind_of_cut _ ha] at h; rw [← h] at he; cases he
  | broken reason v =>
    rw [Effect.bind_of_broken _ ha] at h
    rw [ha] at htrack
    rw [← h]
    exact htrack
  | returned a v =>
    rw [Effect.bind_of_returned _ ha] at h
    rw [ha] at htrack
    cases a with
    | waiting x => rw [← h] at he; cases he
    | resolved r left => rw [← h]; exact htrack

theorem finish_of_awaited {k : Kit W I α P G F β} {gap : W → W} {fuel polls : Nat}
    {j : Job I α P G F} {w : W} {e : Ending W (Resolution (Option Int32))} (he : e.isCut = false)
    (h : awaited k gap fuel polls j w = e) :
    ∃ N, finish k (k.poll.stage.finish gap N) N j w = e :=
  (eventually_finish_of_awaited he h).exists

theorem awaited_of_finish {k : Kit W I α P G F β} {gap : W → W} {N : Nat} {j : Job I α P G F} {w : W}
    {e : Ending W (Resolution (Option Int32))} (he : e.isCut = false)
    (h : finish k (k.poll.stage.finish gap N) N j w = e) :
    ∃ fuel polls, awaited k gap fuel polls j w = e := by
  have hattains : Attains (fun n => Poller.stage (poll k n)) gap j w
      (finish k (k.poll.stage.finish gap N) N j w) :=
    attains_finish k k.step k.poll (fun _ => k.step) (fun _ => k.poll)
      ⟨0, fun _ _ _ _ => Effect.Below.refl _⟩ (fun x w => Stage.attains_finish N x w) N j w
  rw [h] at hattains
  obtain ⟨fuel, used, hall⟩ := hattains he
  refine ⟨fuel, used, ?_⟩
  have hawait := hall fuel le_rfl fuel le_rfl 0
  rw [Nat.add_zero] at hawait
  rw [awaited, Stage.finish]
  cases e with
  | returned r v => exact Effect.bind_of_returned _ hawait
  | broken reason v => exact Effect.bind_of_broken _ hawait
  | cut v => cases he

/-- Polling a job until it resolves is carrying it through. -/
theorem awaited_iff_finish (k : Kit W I α P G F β) (gap : W → W) (j : Job I α P G F) (w : W)
    {e : Ending W (Resolution (Option Int32))} (he : e.isCut = false) :
    (∃ fuel polls, awaited k gap fuel polls j w = e) ↔
      ∃ N, finish k (k.poll.stage.finish gap N) N j w = e := by
  constructor
  · rintro ⟨fuel, polls, h⟩
    exact finish_of_awaited he h
  · rintro ⟨N, h⟩
    exact awaited_of_finish he h

/-- Making a job and polling it until it resolves is making it and carrying it through, with at least one unit of
fuel. -/
theorem bind_awaited_iff_finish (k : Kit W I α P G F β) (gap : W → W) (m : Effect W (Job I α P G F)) (w : W)
    {e : Ending W (Resolution (Option Int32))} (he : e.isCut = false) :
    (∃ fuel polls, (m >>= awaited k gap fuel polls) w = e) ↔
      ∃ n, (m >>= finish k (k.poll.stage.finish gap (n + 1)) (n + 1)) w = e := by
  cases hm : m w with
  | broken reason v => simp only [Effect.bind_of_broken _ hm, exists_const]
  | cut v => simp only [Effect.bind_of_cut _ hm, exists_const]
  | returned j v =>
    simp only [Effect.bind_of_returned _ hm]
    constructor
    · rintro ⟨fuel, polls, h⟩
      have hlater := (eventually_finish_of_awaited he h).and (Filter.eventually_ge_atTop 1)
      obtain ⟨N, hN, hpos⟩ := hlater.exists
      obtain ⟨n, rfl⟩ : ∃ n, N = n + 1 := ⟨N - 1, by omega⟩
      exact ⟨n, hN⟩
    · rintro ⟨n, h⟩
      exact awaited_of_finish he h

theorem finish_walk {k : Kit W I α P G F β} {form : Form} {pull : J → Option α × J} {gap : W → W}
    {locate : Walk (Lookahead J α) P G → Rest I α P G}
    (hfind : ∀ N c, Rest.find k N (locate c) =
      located locate (Walk.next (k.scan form (pulling (aheadOf pull))) N c))
    (habsorb : ∀ c b, (course k.isTrue k.summand).absorb (locate c) b = some (locate c))
    (htotal : ∀ c, (course k.isTrue k.summand).total (locate c) = none) {source rest : J} {x : α}
    (h : pull source = (some x, rest)) (filter : P) (consumer : G) (w : W)
    {e : Ending W (Resolution (Option Int32))} (he : e.isCut = false) :
    (∃ N, (course k.isTrue k.summand).finish (Rest.find k N) (k.poll.stage.finish gap N) N
      (.ahead (locate { source := { source := rest, seen := some (some x) }, filter, consumer }))
        w = e) ↔
      ∃ fuel, forEach k form pull gap fuel source filter consumer 0 w = e := by
  have hfinish : ∀ N, (course k.isTrue k.summand).finish (Rest.find k N)
      (k.poll.stage.finish gap N) N
      (.ahead (locate { source := { source := rest, seen := some (some x) }, filter, consumer })) =
        carryWalk k form (aheadOf pull) gap (course k.isTrue k.summand) locate
          (Rest.find k) N N N
          { source := { source := rest, seen := some (some x) }, filter, consumer } := by
    intro N
    change Rest.find k N (locate _) >>= _ = _
    rw [hfind, located_bind]
    rfl
  simp only [hfinish]
  constructor
  · rintro ⟨N, hN⟩
    refine ⟨N + N * (N + 1) + N, ?_⟩
    rw [← forEach_seen k form pull gap _ h filter consumer 0]
    rw [← hN]
    exact carryWalk_below_forEach hfind habsorb htotal le_rfl
      { source := { source := rest, seen := some (some x) }, filter, consumer } w (by rw [hN, he])
  · rintro ⟨fuel, hfuel⟩
    refine ⟨fuel, ?_⟩
    rw [← forEach_seen k form pull gap fuel h filter consumer 0] at hfuel
    rw [← hfuel]
    exact forEach_below_carryWalk hfind habsorb htotal le_rfl le_rfl le_rfl
      { source := { source := rest, seen := some (some x) }, filter, consumer } w (by rw [hfuel, he])

theorem finish_last {k : Kit W I α P G F β} {form : Form} {pull : J → Option α × J} {gap : W → W}
    {source rest : J} (h : pull source = (none, rest)) (filter : P) (consumer : G) (w : W)
    {e : Ending W (Resolution (Option Int32))} (he : e.isCut = false) :
    (∃ N, (course k.isTrue k.summand).finish (Rest.find k N) (k.poll.stage.finish gap N) N
      (.ahead (.last none)) w = e) ↔
      ∃ fuel, forEach k form pull gap fuel source filter consumer 0 w = e := by
  have hfinish : ∀ N, (course k.isTrue k.summand).finish (Rest.find k N)
      (k.poll.stage.finish gap N) N (.ahead (.last none)) w = .returned (.ok (.ok none)) w :=
    fun N => congrFun (Course.carry_nothing (course k.isTrue k.summand) (Rest.find k N)
      (k.poll.stage.finish gap N) N (.last none)) w
  have hfor : ∀ n, forEach k form pull gap (n + 1) source filter consumer 0 w =
      .returned (.ok (.ok none)) w := by
    intro n
    rw [forEach_succ, h]
    rfl
  constructor
  · rintro ⟨N, hN⟩
    exact ⟨1, by rw [hfor, ← hN, hfinish]⟩
  · rintro ⟨fuel, hfuel⟩
    cases fuel with
    | zero => rw [← hfuel] at he; cases he
    | succ fuel => exact ⟨0, by rw [hfinish, ← hfuel, hfor]⟩

theorem runsAs_forEach {k : Kit W I α P G F β} {form : Form} {pull : J → Option α × J} (gap : W → W)
    (locate : Walk (Lookahead J α) P G → Rest I α P G)
    (wrap : Loop (Walk (Lookahead J α) P G) F → Job I α P G F) {plan : Plan I α} {source : J}
    {filter : P} {consumer : G}
    (hfind : ∀ N c, Rest.find k N (locate c) =
      located locate (Walk.next (k.scan form (pulling (aheadOf pull))) N c))
    (habsorb : ∀ c b, (course k.isTrue k.summand).absorb (locate c) b = some (locate c))
    (htotal : ∀ c, (course k.isTrue k.summand).total (locate c) = none)
    (hview : ∀ l, view (wrap l) = viewLoop locate none l) (hextra : ∀ l, (wrap l).extra = 0)
    (hstart : ∀ fuel, Job.start k.next k.step fuel plan filter consumer =
      Loop.ofSource (pulling pull) source filter consumer >>= fun l => pure (wrap l)) :
    RunsAs k gap plan filter consumer
      fun fuel => forEach k form pull gap fuel source filter consumer 0 := by
  obtain ⟨⟨entry, rest⟩, h⟩ : ∃ r, pull source = r := ⟨_, rfl⟩
  cases entry with
  | none =>
    have hsource : Loop.ofSource (pulling pull) source filter consumer =
        (pure .empty : Effect W (Loop (Walk (Lookahead J α) P G) F)) := by
      change (pure (pull source) >>= _) >>= _ = _
      rw [pure_bind, h]
      rfl
    refine ⟨wrap .empty, fun fuel => by rw [hstart, hsource]; rfl, fun w e he => ?_⟩
    rw [awaited_iff_finish k gap _ w he]
    simp only [finish, hview, hextra, Nat.add_zero]
    exact finish_last h filter consumer w he
  | some x =>
    have hsource : Loop.ofSource (pulling pull) source filter consumer =
        (pure (.running { step :=
          { source := { source := rest, seen := some (some x) }, filter, consumer } }) :
          Effect W (Loop (Walk (Lookahead J α) P G) F)) := by
      change (pure (pull source) >>= _) >>= _ = _
      rw [pure_bind, h]
      rfl
    refine ⟨wrap (.running { step :=
      { source := { source := rest, seen := some (some x) }, filter, consumer } }),
      fun fuel => by rw [hstart, hsource]; rfl, fun w e he => ?_⟩
    rw [awaited_iff_finish k gap _ w he]
    simp only [finish, hview, hextra, Nat.add_zero]
    exact finish_walk hfind habsorb htotal h filter consumer w he

/-- The sequential loop does not ask the source of the kit. -/
theorem forEach_next (k : Kit W I α P G F β) (next : Next W I α) (form : Form)
    (pull : J → Option α × J) (gap : W → W) (n : Nat) (source : J) (filter : P) (consumer : G)
    (i : Nat) :
    forEach { k with next } form pull gap n source filter consumer i =
      forEach k form pull gap n source filter consumer i := by
  induction n generalizing source filter consumer i with
  | zero => rfl
  | succ n ih => simp only [forEach, ih]

/-- A loop over a source that gives its elements on its own, and a loop over a list, make exactly the
calls of the sequential loop, in its order, and come to its outcome. -/
theorem awaited_iff_forEach (k : Kit W I α P G F β) (pull : I → Option α × I) (form : Form)
    (filter : P) (consumer : G) (gap : W → W) :
    (∀ source, RunsAs { k with next := pulling pull } gap (.iterate form source) filter consumer
      fun fuel => forEach k form pull gap fuel source filter consumer 0) ∧
    (∀ elements, RunsAs { k with next := pulling pull } gap (.list form elements) filter consumer
      fun fuel => forEach k form pullList gap fuel elements filter consumer 0) := by
  have hlist : (Next.ofList : Next W (List α) α) = pulling pullList := by
    funext elements
    cases elements <;> rfl
  simp only [← forEach_next k (pulling pull)]
  constructor
  · intro source
    refine runsAs_forEach gap (.iterate form) (.iterate form) (fun N c => ?_)
      (fun _ _ => rfl) (fun _ => rfl) (fun _ => rfl) (fun _ => rfl) (fun _ => rfl)
    rw [← next_pulling]
    rfl
  · intro elements
    refine runsAs_forEach gap (.list form) (.list form) (fun N c => ?_)
      (fun _ _ => rfl) (fun _ => rfl) (fun _ => rfl) (fun _ => rfl) (fun _ => ?_)
    · rw [← next_pulling, ← hlist]
      rfl
    · rw [← hlist]
      rfl

end Job

end Stepwise
