import Stepwise.Muted
import Stepwise.Proofs.Ensures

/-! # The level that is due

A state that is polled may have a muted region open. The level that the region found is then kept aside, and it is what
is due: it will be the level of the log once the region is over. Where no region is open the present level is due.

* `KeepsDue`: no poll changes what is due, whatever the body of the region does (`Muted.keepsDue`). So a region that
  ends leaves the log at the level at which it was entered.
* `Quiet`: besides, a poll that leaves a region open leaves the log off, or as it was. This takes a body that keeps the
  level (`Muted.quiet`).
* `Muted.run_level` says of a region whose body does not wait that it leaves the level it found.
-/

namespace Stepwise
set_option autoImplicit false

variable {W A F β : Type}

/-- The log is at the same level. -/
def LevelKept [Logging W] (w w' : W) : Prop := Logging.level w' = Logging.level w

instance [Logging W] : Std.Refl (LevelKept (W := W)) := ⟨fun _ => rfl⟩

instance [Logging W] : Trans (LevelKept (W := W)) LevelKept LevelKept := ⟨fun h h' => h'.trans h⟩

namespace Muting

variable [Logging W]

/-- The level that was kept aside; where there is none, the present one. -/
def due (back : Option Level) (w : W) : Level := back.getD (Logging.level w)

/-- A poll leaves due what was due. `back` says which level a state has kept aside. -/
structure Paid (back : F → Option Level) (x : F) (w : W) (r : Poll β × F) (w' : W) : Prop where
  due : due (back r.2) w' = due (back x) w
  /-- A state that has resolved keeps no level aside. -/
  closed : r.1.isReady = true → back r.2 = none

/-- Besides, a region that is open after the poll was entered in it and has turned the log off, or was open before and
has left the level as it was. -/
structure QuietlyPaid (back : F → Option Level) (x : F) (w : W) (r : Poll β × F) (w' : W) : Prop extends
    Paid back x w r w' where
  quiet : (back r.2).isSome = true → Logging.level w' = .off ∨ (back x).isSome = true ∧ LevelKept w w'

def KeepsDue (poll : Poller W F β) (back : F → Option Level) : Prop :=
  ∀ x w, (poll x w).Ensures (fun _ => True) (Paid back x w)

def Quiet (poll : Poller W F β) (back : F → Option Level) : Prop :=
  ∀ x w, (poll x w).Ensures (fun _ => True) (QuietlyPaid back x w)

theorem Quiet.keepsDue {poll : Poller W F β} {back : F → Option Level} (h : Quiet poll back) : KeepsDue poll back :=
  fun x w => (h x w).mono (fun _ h => h) fun _ _ h => h.toPaid

/-- Nothing is kept aside where `x` begins, and the level there is the one that was due before. -/
theorem QuietlyPaid.of_begun {back : F → Option Level} {x y : F} {w w' w'' : W} {r : Poll β × F}
    (h : QuietlyPaid back x w' r w'') (hx : back x = none) (hlevel : Logging.level w' = due (back y) w) :
    QuietlyPaid back y w r w'' where
  due := by
    rw [h.due, hx]
    exact hlevel
  closed := h.closed
  quiet hopen := by
    obtain hoff | ⟨hsome, -⟩ := h.quiet hopen
    · exact Or.inl hoff
    · rw [hx] at hsome
      cases hsome

/-! ## Beside a second part of the world -/

theorem KeepsDue.within {poll : Poller W F β} {back : F → Option Level} (h : KeepsDue poll back) (S : Type) :
    KeepsDue (poll.within S) back := fun x ws =>
  ((h x ws.1).within_and ws.2).mono (fun _ h => h) fun _ _ hr => ⟨hr.2.due, hr.2.closed⟩

theorem Quiet.within {poll : Poller W F β} {back : F → Option Level} (h : Quiet poll back) (S : Type) :
    Quiet (poll.within S) back := fun x ws =>
  ((h x ws.1).within_and ws.2).mono (fun _ h => h) fun _ _ hr => ⟨⟨hr.2.due, hr.2.closed⟩, hr.2.quiet⟩

end Muting

namespace Muted

open Muting

/-- The level that a region has kept aside. -/
def back : Muted A F → Option Level
  | .inside level _ => some level
  | _ => none

variable [Logging W] {start : A → Effect W F} {body : Poller W F β}

theorem enter_apply (w : W) : enter w = .returned (Logging.level w) (Logging.setLevel .off w) := rfl

variable (hset : ∀ level (w : W), Logging.level (Logging.setLevel level w) = level)
include hset

theorem run_level (body : Effect W β) (w : W) :
    (run body w).Ensures (fun _ => True) fun _ w' => LevelKept w w' := by
  rw [run, Effect.bind_of_returned _ (enter_apply w)]
  exact (Ending.Ensures.any _).bind fun _ w' _ => hset _ w'

theorem pollBody_paid (level : Level) (x : F) (w : W) :
    (pollBody (A := A) body level x w).Ensures (fun _ => True) fun r w' =>
      due r.2.back w' = level ∧ (r.1.isReady = true → r.2.back = none) := by
  refine (Ending.Ensures.any (body x w)).bind ?_
  rintro ⟨answer, x⟩ w' -
  cases answer with
  | ready outcome => exact ⟨hset level w', fun _ => rfl⟩
  | _ => exact ⟨rfl, nofun⟩

theorem keepsDue (start : A → Effect W F) (body : Poller W F β) : KeepsDue (poll start body) back := by
  intro x w
  cases x with
  | finished => exact ⟨rfl, nofun⟩
  | inside level x => exact (pollBody_paid hset level x w).mono (fun _ h => h) fun _ _ h => ⟨h.1, h.2⟩
  | fresh a =>
    rw [poll, Effect.bind_of_returned _ (enter_apply w)]
    refine (Ending.Ensures.any _).bind fun x w' _ => ?_
    exact (pollBody_paid hset _ x w').mono (fun _ h => h) fun _ _ h => ⟨h.1, h.2⟩

omit hset in
theorem pollBody_quiet (hbody : ∀ x, (body x).Keeps LevelKept) (level : Level) (x : F) (w : W) :
    (pollBody (A := A) body level x w).Ensures (fun _ => True) fun r w' =>
      r.2.back.isSome = true → LevelKept w w' := by
  refine ((hbody x).ensures w).result.bind ?_
  rintro ⟨answer, x⟩ w' h
  cases answer with
  | ready outcome => exact nofun
  | _ => exact fun _ => h

theorem quiet (hstart : ∀ a, (start a).Keeps LevelKept) (hbody : ∀ x, (body x).Keeps LevelKept) :
    Quiet (poll start body) back := by
  intro x w
  suffices hquiet : (poll start body x w).Ensures (fun _ => True) fun r w' =>
      r.2.back.isSome = true → Logging.level w' = .off ∨ x.back.isSome = true ∧ LevelKept w w' from
    ((keepsDue hset start body x w).and hquiet).mono (fun _ h => h) fun _ _ h => ⟨h.1, h.2⟩
  cases x with
  | finished => exact nofun
  | inside level x => exact (pollBody_quiet hbody level x w).mono (fun _ h => h) fun r w' h hr => Or.inr ⟨rfl, h hr⟩
  | fresh a =>
    rw [poll, Effect.bind_of_returned _ (enter_apply w)]
    refine ((hstart a).ensures _).result.bind ?_
    intro x w' hstarted
    refine (pollBody_quiet hbody _ x w').mono (fun _ h => h) fun r w'' h hr => Or.inl ?_
    calc Logging.level w'' = Logging.level w' := h hr
      _ = Logging.level (Logging.setLevel .off w) := hstarted
      _ = .off := hset .off w

end Muted

end Stepwise
