import Stepwise.Proofs.Muted.InUse
import Stepwise.Proofs.Suite.Level

/-! # Muted regions beside suites

Suites and muted regions with bodies of any kind are made, polled and dropped in any order, in one world and so with
one log.

* `muting_exact` says at which level the log is, whenever this stops. A region puts back the level it found only where
  its body is polled to the end, and the level at the beginning is back exactly where what happened falls into stretches
  from the entry of a region to its end.
* `muting_outlives`: a suite that is dropped inside its muted trial leaves the log off, and so do two regions that both
  end, the one that was entered first before the other.
-/

namespace Stepwise.Suite
set_option autoImplicit false

open Muting

section Members

variable {S ι κ : Type} {A F β : ι → Type}

/-- What a region or a suite is made from. -/
def Making (A : ι → Type) : ι ⊕ κ → Type
  | .inl i => A i
  | .inr _ => List Part

/-- A muted region, or a suite. -/
def Member (A F : ι → Type) : ι ⊕ κ → Type
  | .inl i => Muted (A i) (F i)
  | .inr _ => Progress

def Result (β : ι → Type) : ι ⊕ κ → Type
  | .inl i => β i
  | .inr _ => Unit

namespace Member

/-- Neither is entered before it is polled. -/
def make : ∀ m : ι ⊕ κ, Making A m → Effect (Hall × S) (Member A F m)
  | .inl _, a => pure (Muted.fresh a)
  | .inr _, parts => pure (Progress.fresh parts)

def poll (start : ∀ i, A i → Effect (Hall × S) (F i)) (body : ∀ i, Poller (Hall × S) (F i) (β i)) (flavor : κ → Flavor)
    (fuel : κ → Nat) : ∀ m : ι ⊕ κ, Poller (Hall × S) (Member A F m) (Result β m)
  | .inl i => Muted.poll (start i) (body i)
  | .inr k => (Progress.poll (flavor k) (fuel k)).within S

def back : ∀ m : ι ⊕ κ, Member A F m → Option Level
  | .inl _ => Muted.back
  | .inr _ => Progress.back

theorem make_back (m : ι ⊕ κ) (a : Making A m) (w : Hall × S) :
    (make (F := F) m a w).Ensures (fun _ => True) fun x _ => back m x = none := by
  cases m <;> exact rfl

theorem keeps_make (m : ι ⊕ κ) (a : Making A m) : (make (S := S) (F := F) m a).Keeps LevelKept := by
  cases m <;> exact Effect.Keeps.pure _

theorem level_setLevel (level : Level) (w : Hall × S) : Logging.level (Logging.setLevel level w) = level := rfl

variable (start : ∀ i, A i → Effect (Hall × S) (F i)) (body : ∀ i, Poller (Hall × S) (F i) (β i)) (flavor : κ → Flavor)
  (fuel : κ → Nat)

theorem poll_keepsDue (m : ι ⊕ κ) : KeepsDue (poll start body flavor fuel m) (back m) := by
  cases m with
  | inl i => exact Muted.keepsDue level_setLevel (start i) (body i)
  | inr k => exact (Progress.quiet (flavor k) (fuel k)).keepsDue.within S

theorem poll_quiet (hstart : ∀ i a, (start i a).Keeps LevelKept) (hbody : ∀ i x, (body i x).Keeps LevelKept)
    (m : ι ⊕ κ) : Quiet (poll start body flavor fuel m) (back m) := by
  cases m with
  | inl i => exact Muted.quiet level_setLevel (hstart i) (hbody i)
  | inr k => exact (Progress.quiet (flavor k) (fuel k)).within S

end Member

end Members

/-! ## Regions that cross, and regions that are nested -/

/-- Two regions. The body of each gives way once. -/
abbrev Pair : Bool ⊕ Empty → Type := Member (fun _ => MeterStep Int32) fun _ => MeterStep Int32

def Pair.poll : ∀ i, Poller (Hall × Unit) (Pair i) (Result (fun _ => Int32) i) :=
  Member.poll (fun _ => pure) (fun _ => (MeterStep.poll Hall.wake Hall.changeMeter).within Unit) nofun nofun

/-- They are entered one after the other and end in the same order. -/
def crossing : List (Deed (Hall × Unit) (Making (κ := Empty) fun _ : Bool => MeterStep Int32)) :=
  [.make (.inl false) (.fresh (.ok 0)), .make (.inl true) (.fresh (.ok 0)), .poll (.inl false), .poll (.inl true),
    .poll (.inl false), .poll (.inl true)]

/-- What becomes of the two at the level `warn`. -/
def crossingEnd : Ending ((Hall × Unit) × InUse Pair) Unit :=
  Muting.run Member.make Pair.poll Member.back crossing (({ level := .warn }, ()), {})

theorem crossingEnd_off :
    crossingEnd.Ensures (fun _ => False) fun _ w =>
      w.1.1.level = .off ∧ w.2.crew (.inl false) = some .finished ∧ w.2.crew (.inl true) = some .finished :=
  ⟨rfl, rfl, rfl⟩

/-- They are entered one after the other, and the one that was entered last ends first. -/
def nesting : List (Deed (Hall × Unit) (Making (κ := Empty) fun _ : Bool => MeterStep Int32)) :=
  [.make (.inl false) (.fresh (.ok 0)), .make (.inl true) (.fresh (.ok 0)), .poll (.inl false), .poll (.inl true),
    .poll (.inl true), .poll (.inl false)]

def nestingEnd : Ending ((Hall × Unit) × InUse Pair) Unit :=
  Muting.run Member.make Pair.poll Member.back nesting (({ level := .warn }, ()), {})

theorem nestingEnd_warn :
    nestingEnd.Ensures (fun _ => False) fun _ w =>
      w.1.1.level = .warn ∧ w.2.crew (.inl false) = some .finished ∧ w.2.crew (.inl true) = some .finished :=
  ⟨rfl, rfl, rfl⟩

/-! ## The level at any time -/

/-- Whatever is run muted leaves the level it found. A suite leaves the level at which it was run if it resolves, and
otherwise that level or off. Of suites and regions that are polled and dropped in any order the history tells the
level; if nothing else turns the log on, the level at the beginning is back exactly where the history is undone. -/
theorem muting_exact {S ι κ : Type} [DecidableEq ι] [DecidableEq κ] {A F β : ι → Type}
    (start : ∀ i, A i → Effect (Hall × S) (F i)) (body : ∀ i, Poller (Hall × S) (F i) (β i)) (flavor : κ → Flavor)
    (fuel : κ → Nat) :
    (∀ {γ : Type} (e : Effect (Hall × S) γ) (w : Hall × S),
      (Muted.run e w).Ensures (fun _ => True) fun _ w' => LevelKept w w') ∧
    (∀ (k : κ) (limit : Nat) (h : Hall),
      (Suite.run (flavor k) (fuel k) limit h).Ensures (fun _ => True) fun report h' =>
        (h'.level = h.level ∨ h'.level = .off) ∧
          ∀ outcome, report.answer = some (.ready outcome) → h'.level = h.level) ∧
    ∀ (deeds : List (Deed (Hall × S) (Making (κ := κ) A))) (w : Hall × S),
      (Muting.run Member.make (Member.poll start body flavor fuel) Member.back deeds (w, {})).Ensures (fun _ => True)
        fun _ w' =>
          Exact Member.back (Logging.level w) w'.2 (Logging.level w'.1) ∧
            ((∀ i a, (start i a).Keeps LevelKept) → (∀ i x, (body i x).Keeps LevelKept) →
              (∀ deed ∈ deeds, Aside deed) →
              (Logging.level w'.1 = Logging.level w ↔ Logging.level w = .off ∨ Undone w'.2.events)) := by
  refine ⟨Muted.run_level Member.level_setLevel, fun k => run_level (flavor k) (fuel k), fun deeds w => ?_⟩
  have hkept := run_kept Member.make_back (Member.poll_keepsDue start body flavor fuel) deeds
    (Kept.unused Member.back (Logging.level w))
  -- what is asked of the bodies is the same in every world, so it is decided before the run
  by_cases hquiet : (∀ i a, (start i a).Keeps LevelKept) ∧ (∀ i x, (body i x).Keeps LevelKept) ∧
      ∀ deed ∈ deeds, Aside deed
  · obtain ⟨hstart, hbody, hdeeds⟩ := hquiet
    have hpoll := Member.poll_quiet start body flavor fuel hstart hbody
    have hmuffled := run_muffled Member.keeps_make hpoll hdeeds w (u := {}) fun _ hmem => nomatch hmem
    refine (hkept.and hmuffled).mono (fun _ h => h) fun _ _ h => ⟨h.1.exact, fun _ _ _ => ?_⟩
    exact h.1.told.eq_initial_iff h.2
  · refine hkept.mono (fun _ h => h) fun _ _ h => ⟨h.exact, fun hstart hbody hdeeds => ?_⟩
    exact absurd ⟨hstart, hbody, hdeeds⟩ hquiet

/-- After two regions that were nested the history is undone and the level is back, and after two that have crossed it
is not. -/
theorem nesting_undone_crossing_not :
    nestingEnd.Ensures (fun _ => False) (fun _ w => w.1.1.level = .warn ∧ Undone w.2.events) ∧
    crossingEnd.Ensures (fun _ => False) fun _ w => w.1.1.level = .off ∧ ¬ Undone w.2.events := by
  have hstep : ∀ x : MeterStep Int32,
      ((MeterStep.poll Hall.wake Hall.changeMeter).within Unit x).Keeps LevelKept := by
    intro x w
    rcases x with (_ | _) | _ | _ | _ <;> rfl
  have hexact : ∀ deeds, (∀ deed ∈ deeds, Aside deed) →
      (Muting.run Member.make Pair.poll Member.back deeds (({ level := .warn }, ()), {})).Ensures (fun _ => True)
        fun _ w => w.1.1.level = .warn ↔ .warn = Level.off ∨ Undone w.2.events := by
    intro deeds hdeeds
    refine ((muting_exact (fun _ => pure) (fun _ => (MeterStep.poll Hall.wake Hall.changeMeter).within Unit) nofun
      nofun).2.2 deeds ({ level := .warn }, ())).mono (fun _ h => h) fun _ w h => ?_
    exact h.2 (fun _ _ => Effect.Keeps.pure _) (fun _ => hstep) hdeeds
  constructor
  · have hnesting := hexact nesting (by simp [nesting, Aside])
    refine (nestingEnd_warn.and hnesting).mono (fun _ h => h) fun _ w ⟨⟨hwarn, _⟩, hiff⟩ => ?_
    exact ⟨hwarn, (hiff.1 hwarn).resolve_left nofun⟩
  · have hcrossing := hexact crossing (by simp [crossing, Aside])
    refine (crossingEnd_off.and hcrossing).mono (fun _ h => h) fun _ w ⟨⟨hoff, _⟩, hiff⟩ => ?_
    exact ⟨hoff, fun hundone => nomatch hoff.symm.trans (hiff.2 (Or.inr hundone))⟩

/-- A suite that is dropped after 292 polls leaves the log off, and so do two regions that have both ended. -/
theorem muting_outlives :
    (run .yielding 200 292 { level := .warn }).Ensures (fun _ => False) (fun report h =>
      report.polls = 292 ∧ report.answer.isNone = true ∧ h.level = .off) ∧
    crossingEnd.Ensures (fun _ => False) (fun _ w =>
      w.1.1.level = .off ∧ w.2.crew (.inl false) = some .finished ∧ w.2.crew (.inl true) = some .finished) :=
  ⟨by decide +kernel, crossingEnd_off⟩

end Stepwise.Suite
