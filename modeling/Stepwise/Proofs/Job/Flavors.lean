import Stepwise.Proofs.Job.ForEach
import Stepwise.Proofs.Job.Metered
import Stepwise.Proofs.Job.Paired

/-! # Both flavors of metered steps

A metered job is made and polled until it resolves. Steps of the flavor `yielding` make it wait, and those of the
flavor `settled` never do. Nobody who sees only the outcome, the calls and the counts can tell which flavor it was.

* The world has two parts. The first one belongs to the choices; in the second one whoever is woken is woken, and it
  may change in any way between two polls. `seen` is what is compared: the first part, the counts and the calls.
* `kit_paired`: a step of either flavor stands beside a settled step, which the meter has already counted as
  over. `through_paired`: polled until it resolves, it comes to what the settled step gives at once.
* `seen_carried`: so carrying a job through, with either flavor, comes to what one poll with settled steps gives.
* `Job.metered_in_turn` puts all that is known of metered jobs together.
-/

namespace Stepwise
set_option autoImplicit false

variable {W W' U V I α P G A β : Type}

/-- The same ending, of whose world only a part is looked at. -/
def Ending.seenBy (f : W → W') : Ending W A → Ending W' A
  | .returned a w => .returned a (f w)
  | .broken reason w => .broken reason (f w)
  | .cut w => .cut (f w)

theorem Ending.isCut_seenBy (f : W → W') (e : Ending W A) : (e.seenBy f).isCut = e.isCut := by
  cases e <;> rfl

/-- Two runs that come to the same results, in worlds of which one sees the same. -/
theorem Ending.Paired.seenBy_eq {R : Nat → W → W → Prop} {f : W → W'} (hR : ∀ d w v, R d w v → f w = f v)
    {e e' : Ending W A} (h : e.Paired R (Same R) e') : e.seenBy f = e'.seenBy f := by
  cases e with
  | returned a w =>
    obtain ⟨b, v, rfl, rfl, hseen⟩ := h.exists_right
    exact congrArg (Ending.returned a) (hR 0 w v hseen)
  | broken reason w =>
    obtain ⟨v, rfl, hseen⟩ := h.broken_right
    exact congrArg (Ending.broken reason) (hR 0 w v hseen)
  | cut w =>
    cases e' with
    | cut v =>
      obtain ⟨d, hseen⟩ := h
      exact congrArg Ending.cut (hR d w v hseen)
    | returned b v => exact h.elim
    | broken reason v => exact h.elim

namespace Choices

/-- The same choices in a world with a second part. -/
def within (V : Type) (c : Choices U I α P G β) : Choices (U × V) I α P G β where
  next source := (c.next source).within V
  test filter call := (c.test filter call).within V
  choose consumer call := (c.choose consumer call).within V
  isTrue := c.isTrue
  summand := c.summand

/-- The kit of the choices, for steps that wake somebody in the second part of the world. -/
def kitBeside (c : Choices U I α P G β) (flavor : Flavor) (wake : V → V) :
    Kit ((U × V) × Gauge α) I α P G (MeterStep β) β :=
  (c.within V).kit flavor (Effect.changes fun w => (w.1, wake w.2))

/-- What one sees of a world. -/
def seen (w : (U × V) × Gauge α) : U × Meter × List (Call α) := (w.1.1, w.2.meter, w.2.visited)

/-- One sees the same of the two worlds. -/
structure Level (d : Nat) (w v : (U × V) × Gauge α) : Prop where
  first : w.1.1 = v.1.1
  meter : w.2.meter = v.2.meter
  visited : w.2.visited = v.2.visited

theorem Level.refl (w : (U × V) × Gauge α) : Level 0 w w := ⟨rfl, rfl, rfl⟩

theorem Level.seen_eq (d : Nat) (w v : (U × V) × Gauge α) (h : Level d w v) : seen w = seen v :=
  Prod.ext h.first (Prod.ext h.meter h.visited)

/-- A step beside a settled one. While it is under way, one will see the same when it is over. -/
def Abreast (x x' : MeterStep β) (w v : (U × V) × Gauge α) : Prop :=
  ∃ outcome, x' = .resolved (.holding outcome) ∧
    (x = .resolved (.holding outcome) ∧ Level 0 w v ∨
      x = .fresh outcome ∧ Level 0 (w.1, w.2.change Meter.finish) v)

/-! ## Side by side -/

variable (c : Choices U I α P G β) (flavor : Flavor) (wake gap : V → V)

/-- What is done in the first part of the world. -/
theorem within_paired (m : Effect U A) :
    Effect.Paired (Level (V := V) (α := α)) (Same Level) ((m.within V).within (Gauge α))
      ((m.within V).within (Gauge α)) := by
  rintro ⟨⟨u, x⟩, g⟩ ⟨⟨u', x'⟩, g'⟩ h
  have hu : u = u' := h.first
  subst hu
  simp only [Effect.within]
  cases m u with
  | returned a u => exact ⟨rfl, rfl, h.meter, h.visited⟩
  | broken reason u => exact ⟨rfl, rfl, h.meter, h.visited⟩
  | cut u => exact ⟨0, rfl, h.meter, h.visited⟩

theorem request_abreast {w v : (U × V) × Gauge α} (h : Level 0 w v) (call : Call α) (outcome : Outcome β) :
    Abreast (w.2.request flavor call outcome).1 (v.2.request .settled call outcome).1
      (w.1, (w.2.request flavor call outcome).2) (v.1, (v.2.request .settled call outcome).2) := by
  have hmeter : w.2.meter.enter.finish = v.2.meter.enter.finish := by rw [h.meter]
  have hvisited : call :: w.2.visited = call :: v.2.visited := by rw [h.visited]
  refine ⟨outcome, rfl, ?_⟩
  cases flavor with
  | settled => exact Or.inl ⟨rfl, h.first, hmeter, hvisited⟩
  | yielding => exact Or.inr ⟨rfl, h.first, hmeter, hvisited⟩

theorem kit_paired : (c.kitBeside flavor wake).Paired Level Abreast id id (c.kitBeside .settled wake) where
  next source := within_paired (c.next source)
  test filter call := within_paired (c.test filter call)
  step consumer call := by
    refine (within_paired (c.choose consumer call)).bind_same fun r w v h => ?_
    exact ⟨request_abreast flavor h call r.1, r.2, rfl, rfl⟩
  isTrue := rfl
  summand := rfl

/-- What happens between two polls. -/
def between (w : (U × V) × Gauge α) : (U × V) × Gauge α := ((w.1.1, gap w.1.2), w.2)

/-- A step that is polled until it resolves comes to what the settled step gives at once. -/
theorem through_paired (n : Nat) (x x' : MeterStep β) (w v : (U × V) × Gauge α) (h : Abreast x x' w v) :
    (((c.kitBeside flavor wake).poll.stage.finish (between gap) (n + 1)) x w).Paired Level (AtOnce Level)
      ((c.kitBeside .settled wake).poll.stage x' v) := by
  obtain ⟨outcome, rfl, ⟨rfl, hlevel⟩ | ⟨rfl, hlevel⟩⟩ := h
  · have hnow : (c.kitBeside flavor wake).poll.stage (.resolved (.holding outcome)) w =
        .returned (.inl (.ok outcome)) w := rfl
    rw [Stage.finish_of_inl _ _ hnow]
    exact ⟨rfl, hlevel⟩
  · -- the first poll waits, and the second one is the last
    let stage := (c.kitBeside flavor wake).poll.stage
    let woken : (U × V) × Gauge α := ((w.1.1, wake w.1.2), w.2)
    let last : (U × V) × Gauge α := ((between gap woken).1, w.2.change Meter.finish)
    have hwaits : stage (.fresh outcome) w = .returned (.inr (.yielded outcome)) woken := rfl
    have hlast : stage (.yielded outcome) (between gap woken) = .returned (.inl (.ok outcome)) last := rfl
    have hawait : stage.await stage (between gap) (n + 1) (.fresh outcome) w =
        .returned (.resolved (.ok outcome) n) last := by
      rw [Stage.await_of_inr _ _ _ hwaits, Stage.awaitRest_succ, Stage.await_of_inl _ _ _ hlast]
    have hfinish : stage.finish (between gap) (n + 1) (.fresh outcome) w = .returned (.ok outcome) last :=
      Effect.bind_of_returned _ hawait
    change Ending.Paired Level (AtOnce Level) (stage.finish (between gap) (n + 1) (.fresh outcome) w) _
    rw [hfinish]
    exact ⟨rfl, hlevel.first, hlevel.meter, hlevel.visited⟩

/-! ## Whole runs -/

/-- Make a job and poll it until it resolves. -/
def run (plan : Plan I α) (filter : P) (consumer : G) (made fuel polls : Nat) :
    Effect ((U × V) × Gauge α) (Resolution (Option Int32)) := do
  let j ← Job.start (c.kitBeside flavor wake).next (c.kitBeside flavor wake).step made plan filter consumer
  Job.awaited (c.kitBeside flavor wake) (between gap) fuel polls j

/-- Make a job and carry it through. -/
def carried (plan : Plan I α) (filter : P) (consumer : G) (made n : Nat) :
    Effect ((U × V) × Gauge α) (Resolution (Option Int32)) := do
  let j ← Job.start (c.kitBeside flavor wake).next (c.kitBeside flavor wake).step made plan filter consumer
  Job.finish (c.kitBeside flavor wake) ((c.kitBeside flavor wake).poll.stage.finish (between gap) (n + 1)) (n + 1) j

/-- Make a job of settled steps and poll it once, which is enough. -/
def polledOnce (plan : Plan I α) (filter : P) (consumer : G) (made n : Nat) :
    Effect ((U × V) × Gauge α) (Resolution (Option Int32)) := do
  let j ← Job.start (c.kitBeside .settled wake).next (c.kitBeside .settled wake).step made plan filter consumer
  match ← (Job.poll (c.kitBeside .settled wake) (n + 1)).stage j with
  | .inl r => pure r
  | .inr _ => Effect.cut

variable (plan : Plan I α) (filter : P) (consumer : G)

theorem seen_carried (made n : Nat) (w : (U × V) × Gauge α) :
    (c.carried flavor wake gap plan filter consumer made n w).seenBy seen =
      (c.polledOnce wake plan filter consumer made n w).seenBy seen := by
  have hk := c.kit_paired flavor wake
  have hstart := Job.start_paired hk.next hk.step made plan filter consumer w w (Level.refl w)
  refine Ending.Paired.seenBy_eq Level.seen_eq (hstart.bind fun j j' w v hj => ?_)
  have hfinish := Job.finish_paired hk (c.through_paired flavor wake gap n) (n + 1) hj
  refine hfinish.bind_right fun r s w v hs => ?_
  obtain ⟨rfl, hlevel⟩ := hs
  exact ⟨rfl, hlevel⟩

/-- What is seen of a run that comes to an end is what is seen of one poll with settled steps. -/
theorem seen_run (w : (U × V) × Gauge α) {e : Ending (U × Meter × List (Call α)) (Resolution (Option Int32))}
    (he : e.isCut = false) :
    (∃ made fuel polls, (c.run flavor wake gap plan filter consumer made fuel polls w).seenBy seen = e) ↔
      ∃ made n, (c.polledOnce wake plan filter consumer made n w).seenBy seen = e := by
  have hcarried : ∀ made (e' : Ending ((U × V) × Gauge α) (Resolution (Option Int32))), e'.isCut = false →
      ((∃ fuel polls, c.run flavor wake gap plan filter consumer made fuel polls w = e') ↔
        ∃ n, c.carried flavor wake gap plan filter consumer made n w = e') := by
    intro made e' he'
    exact Job.bind_awaited_iff_finish (c.kitBeside flavor wake) (between gap) _ w he'
  constructor
  · rintro ⟨made, fuel, polls, rfl⟩
    rw [Ending.isCut_seenBy] at he
    obtain ⟨n, hn⟩ := (hcarried made _ he).1 ⟨fuel, polls, rfl⟩
    refine ⟨made, n, ?_⟩
    rw [← c.seen_carried flavor wake gap, hn]
  · rintro ⟨made, n, rfl⟩
    rw [← c.seen_carried flavor wake gap, Ending.isCut_seenBy] at he
    obtain ⟨fuel, polls, hrun⟩ := (hcarried made _ he).2 ⟨n, rfl⟩
    refine ⟨made, fuel, polls, ?_⟩
    rw [hrun, c.seen_carried flavor wake gap]

end Choices

/-- At every moment of a metered job, also before its first poll and inside of its polls, no more than one step is
under way and none was requested while another one was. A job that has resolved, with a failure or without one, has
passed the meter: the steps were driven one after the other, and the meter counts the calls as requested and as
over. The outcome, the calls and the counts are the same with either flavor. -/
theorem Job.metered_in_turn (plan : Plan I α) (filter : P) (consumer : G) :
    (∀ (c : Choices W I α P G β) flavor wake made fuel (gaps : List (Effect W Unit)) w,
      ((Job.start (c.kit flavor wake).next (c.kit flavor wake).step made plan filter consumer >>=
        (Job.poll (c.kit flavor wake) fuel).asked (gaps.map (Effect.within (Gauge α)))) (w, {})).Ensures
        (fun w => w.2.InTurn)
        fun answers w => w.2.InTurn ∧ (∀ cause, .panicked cause ∉ answers) ∧
          ∀ outcome, .ready outcome ∈ answers →
            w.2.meter.verdict = .sequential ∧ w.2.meter.requested = w.2.visited.length ∧
              w.2.meter.finished = w.2.visited.length) ∧
    ∀ (c : Choices U I α P G β) (wake gap : V → V) w
      (e : Ending (U × Meter × List (Call α)) (Resolution (Option Int32))), e.isCut = false →
      ((∃ made fuel polls,
          (c.run .settled wake gap plan filter consumer made fuel polls w).seenBy Choices.seen = e) ↔
        ∃ made fuel polls,
          (c.run .yielding wake gap plan filter consumer made fuel polls w).seenBy Choices.seen = e) := by
  constructor
  · intro c flavor wake made fuel gaps w
    refine (c.start_asked_meets flavor wake plan filter consumer made fuel gaps w).mono (fun _ h => h) ?_
    rintro answers w ⟨hturn, hpanic, hready⟩
    exact ⟨hturn, hpanic, fun outcome hmem => (hready outcome hmem).sequential⟩
  · intro c wake gap w e he
    have hsettled := c.seen_run .settled wake gap plan filter consumer w he
    have hyielding := c.seen_run .yielding wake gap plan filter consumer w he
    exact hsettled.trans hyielding.symm

/-- Steps of which the one for the element `x` fails. -/
def Choices.failingAt (x : Nat) : Choices Unit Unit Nat Unit Unit Unit where
  next source := pure (none, source)
  test filter _ := pure (.ok true, filter)
  choose consumer call := pure (if call = .element x then .error { cause := .step 1 } else .ok (), consumer)
  isTrue _ := true
  summand _ := 0

/-- Three elements, of which the second one fails. The second part of the world counts who is woken. -/
theorem Choices.failingAt_yielding :
    ∃ made fuel polls,
      ((failingAt 20).run .yielding (· + 1) id (.list .each [10, 20, 30]) () () made fuel polls
        (((), 0), {})).seenBy seen =
        .returned (.ok (.error { cause := .step 1 }))
          ((), { requested := 2, finished := 2 }, [.element 20, .element 10]) := by
  have hboth := (Job.metered_in_turn (W := Unit) (.list .each [10, 20, 30]) () ()).2 (failingAt 20) (· + 1) id
    (((), 0), {}) (.returned (.ok (.error { cause := .step 1 }))
      ((), { requested := 2, finished := 2 }, [.element 20, .element 10])) rfl
  exact hboth.1 ⟨3, 3, 0, rfl⟩

end Stepwise
