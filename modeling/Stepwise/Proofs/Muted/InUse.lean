import Mathlib.Logic.Function.Basic
import Stepwise.Proofs.Crew
import Stepwise.Proofs.Muted.Due
import Stepwise.Proofs.Muted.History

/-! # Muted regions in use

Any number of states with muted regions are made, polled and dropped in any order, with anything else done in between.
The level of the log is told by what happened to the regions, wherever this stops.

* `run` does the deeds and keeps the history. A region is entered by the poll after which a level is kept aside, and
  ends with the poll after which none is. Dropping a state leaves no trace.
* `Kept` is what holds between two deeds: the history tells the level, and every level that is kept aside is the one
  its region found. `perform_kept` has a case for each deed, `run_kept` is the induction.
* `run_muffled`: nothing but the end of a region turns the log on if what is polled is `Quiet` and what else is done
  keeps the level.
* `Exact`: so the level is the one at the beginning where the history is undone, and nowhere else but off.
-/

namespace Stepwise.Muting
set_option autoImplicit false

variable {W : Type} {ι : Type} {M F β : ι → Type}

/-- The states that are held, and what happened. -/
structure InUse (F : ι → Type) where
  crew : ∀ i, Option (F i) := fun _ => none
  events : List (Event ι) := []

/-- Something has set the level, unless it is the same as before. -/
def change (before after : Level) : List (Event ι) := if after = before then [] else [.changed after]

/-- What a poll did, told by the levels before and after it and by those that are kept aside before and after it. -/
def pollEvents (i : ι) (before after : Level) : Option Level → Option Level → List (Event ι)
  | none, some _ => change .off after ++ [.entered i]
  | some _, none => [.left i]
  | none, none => change before after
  | some _, some _ => change before after

/-- What is held after a poll. A state that panicked is dropped. -/
def afterPoll {α G : Type} : Poll α → G → Option G
  | .panicked _, _ => none
  | _, x => some x

theorem eq_of_afterPoll {α G : Type} {answer : Poll α} {x y : G} (h : afterPoll answer x = some y) : x = y := by
  cases answer with
  | panicked c => cases h
  | _ => exact Option.some.inj h

/-! ## What is told of one deed -/

section Events

variable {initial before after : Level} {events : List (Event ι)} {i : ι}

theorem not_entered_change : .entered i ∉ change before after := by
  rw [change]
  split <;> simp

theorem change_muffled (h : after = .off ∨ after = before) : Muffled (change before after : List (Event ι)) := by
  intro level hmem
  rw [change] at hmem
  split at hmem
  case isTrue => cases hmem
  case isFalse hne =>
    obtain ⟨rfl⟩ := List.mem_singleton.1 hmem
    exact h.resolve_right hne

theorem Told.change (h : Told initial events before) (after : Level) :
    Told initial (Muting.change before after ++ events) after := by
  rw [Muting.change]
  split
  case isTrue heq => exact heq ▸ h
  case isFalse => exact .changed

theorem Muffled.append {later : List (Event ι)} (hlater : Muffled later) (h : Muffled events) :
    Muffled (later ++ events) := fun level hmem => (List.mem_append.1 hmem).elim (hlater level) (h level)

end Events

/-! ## Deeds -/

section Runs

variable [DecidableEq ι] [Logging W]

namespace InUse

def hold (i : ι) (x : Option (F i)) (u : InUse F) : InUse F := { u with crew := Function.update u.crew i x }

def note (events : List (Event ι)) (u : InUse F) : InUse F := { u with events := events ++ u.events }

end InUse

def perform (make : ∀ i, M i → Effect W (F i)) (poll : ∀ i, Poller W (F i) (β i)) (back : ∀ i, F i → Option Level) :
    Deed W M → Effect (W × InUse F) Unit
  | .make i m => do
    let before ← Effect.reads Logging.level
    let x ← (make i m).within (InUse F)
    Effect.changes fun w => (w.1, (w.2.hold i (some x)).note (change before (Logging.level w.1)))
  | .drop i => Effect.changes fun w => (w.1, w.2.hold i none)
  | .other e => do
    let before ← Effect.reads Logging.level
    e.within (InUse F)
    Effect.changes fun w => (w.1, w.2.note (change before (Logging.level w.1)))
  | .poll i => do
    let before ← Effect.reads Logging.level
    match ← Effect.reads fun w => w.2.crew i with
    | none => pure ()
    | some x =>
      let (answer, y) ← (poll i x).within (InUse F)
      Effect.changes fun w => (w.1, (w.2.hold i (afterPoll answer y)).note
        (pollEvents i before (Logging.level w.1) (back i x) (back i y)))

def run (make : ∀ i, M i → Effect W (F i)) (poll : ∀ i, Poller W (F i) (β i)) (back : ∀ i, F i → Option Level) :
    List (Deed W M) → Effect (W × InUse F) Unit
  | [] => pure ()
  | deed :: deeds => do
    perform make poll back deed
    run make poll back deeds

/-! ## The history tells the level -/

/-- The history tells the level, and the levels that are kept aside. -/
structure Kept (back : ∀ i, F i → Option Level) (initial : Level) (u : InUse F) (level : Level) : Prop where
  told : Told initial u.events level
  held : ∀ i x l, u.crew i = some x → back i x = some l → Held initial u.events i l

section Keeping

variable {make : ∀ i, M i → Effect W (F i)} {poll : ∀ i, Poller W (F i) (β i)} {back : ∀ i, F i → Option Level}
  {initial before after : Level} {u : InUse F} {i : ι}

omit [DecidableEq ι] in
theorem Kept.unused (back : ∀ i, F i → Option Level) (initial : Level) : Kept back initial {} initial where
  told := .start
  held := nofun

omit [DecidableEq ι] in
theorem Kept.other (h : Kept back initial u before) (after : Level) :
    Kept back initial (u.note (change before after)) after where
  told := h.told.change after
  held j x l hx hl := (h.held j x l hx hl).append not_entered_change

/-- Another state is held, and what happened does not touch the others. -/
theorem Kept.next (h : Kept back initial u before) {y : Option (F i)} {events : List (Event ι)}
    (htold : Told initial (events ++ u.events) after) (hothers : ∀ j, j ≠ i → .entered j ∉ events)
    (hself : ∀ x l, y = some x → back i x = some l → Held initial (events ++ u.events) i l) :
    Kept back initial ((u.hold i y).note events) after where
  told := htold
  held := by
    intro j x l hx hl
    have hcrew : Function.update u.crew i y j = some x := hx
    by_cases hj : j = i
    · subst hj
      rw [Function.update_self] at hcrew
      exact hself x l hcrew hl
    · rw [Function.update_of_ne hj] at hcrew
      exact (h.held j x l hcrew hl).append (hothers j hj)

/-- What is due stays, so a region that is entered keeps the present level aside, and one that ends brings back the
level it kept. -/
theorem Kept.polled {α : Type} {w w' : W} (h : Kept back initial u (Logging.level w)) {x y : F i}
    (hx : u.crew i = some x) (hdue : due (back i y) w' = due (back i x) w) (answer : Poll α) :
    Kept back initial ((u.hold i (afterPoll answer y)).note
      (pollEvents i (Logging.level w) (Logging.level w') (back i x) (back i y))) (Logging.level w') := by
  have hsame : ∀ z l, afterPoll answer y = some z → back i z = some l → back i y = some l :=
    fun z l hz hl => eq_of_afterPoll hz ▸ hl
  cases hb : back i x with
  | none =>
    cases hb' : back i y with
    | none =>
      refine h.next (h.told.change _) (fun _ _ => not_entered_change) fun z l hz hl => ?_
      cases hb'.symm.trans (hsame z l hz hl)
    | some level =>
      -- entered in this poll: what was due is the level that the history told before it
      rw [hb, hb'] at hdue
      have hlevel : level = Logging.level w := hdue
      refine h.next ?_ ?_ fun z l hz hl => ?_
      · rw [pollEvents, List.append_assoc]
        exact Told.entered.change _
      · intro j hj hmem
        obtain hmem | hmem := List.mem_append.1 hmem
        · exact not_entered_change hmem
        · cases List.mem_singleton.1 hmem
          exact hj rfl
      · cases hb'.symm.trans (hsame z l hz hl)
        rw [pollEvents, List.append_assoc, hlevel]
        exact h.told.held not_entered_change
  | some level =>
    have hheld := h.held i x level hx hb
    cases hb' : back i y with
    | none =>
      -- ended in this poll: what was due was kept aside since the entry
      rw [hb, hb'] at hdue
      have hlevel : Logging.level w' = level := hdue
      refine h.next ?_ (fun j _ hmem => ?_) fun z l hz hl => ?_
      · rw [hlevel]
        exact hheld.left
      · cases List.mem_singleton.1 hmem
      · cases hb'.symm.trans (hsame z l hz hl)
    | some level' =>
      rw [hb, hb'] at hdue
      have hlevel : level' = level := hdue
      refine h.next (h.told.change _) (fun _ _ => not_entered_change) fun z l hz hl => ?_
      cases hb'.symm.trans (hsame z l hz hl)
      rw [hlevel]
      exact hheld.append not_entered_change

omit [DecidableEq ι] in
theorem reads_level (w : W) (u : InUse F) : (Effect.reads Logging.level : Effect (W × InUse F) Level) (w, u) =
    .returned (Logging.level w) (w, u) := rfl

theorem perform_kept (hmake : ∀ i m w, (make i m w).Ensures (fun _ => True) fun x _ => back i x = none)
    (hpoll : ∀ i, KeepsDue (poll i) (back i)) (deed : Deed W M) {w : W} (h : Kept back initial u (Logging.level w)) :
    (perform make poll back deed (w, u)).Ensures (fun _ => True) fun _ w =>
      Kept back initial w.2 (Logging.level w.1) := by
  cases deed with
  | make i m =>
    rw [perform, Effect.bind_of_returned _ (reads_level w u)]
    refine ((hmake i m w).within_and u).bind ?_
    rintro x ⟨w', _⟩ ⟨rfl, hx⟩
    refine h.next (h.told.change _) (fun _ _ => not_entered_change) fun z l hz hl => ?_
    cases hz
    cases hx.symm.trans hl
  | drop i =>
    have hdrop : Kept back initial ((u.hold i none).note []) (Logging.level w) :=
      h.next h.told (fun _ _ => List.not_mem_nil) nofun
    exact hdrop
  | other e =>
    rw [perform, Effect.bind_of_returned _ (reads_level w u)]
    refine ((Ending.Ensures.any (e w)).within_and u).bind ?_
    rintro _ ⟨w', _⟩ ⟨rfl, -⟩
    exact h.other _
  | poll i =>
    rw [perform, Effect.bind_of_returned _ (reads_level w u), Effect.bind_apply]
    simp only [Effect.reads]
    cases hx : u.crew i with
    | none => exact h
    | some x =>
      refine ((hpoll i x w).within_and u).bind ?_
      rintro ⟨answer, y⟩ ⟨w', _⟩ ⟨rfl, hpaid⟩
      exact h.polled hx hpaid.due answer

/-- What holds between two deeds holds after all of them. -/
theorem run_kept (hmake : ∀ i m w, (make i m w).Ensures (fun _ => True) fun x _ => back i x = none)
    (hpoll : ∀ i, KeepsDue (poll i) (back i)) (deeds : List (Deed W M)) {w : W}
    (h : Kept back initial u (Logging.level w)) :
    (run make poll back deeds (w, u)).Ensures (fun _ => True) fun _ w => Kept back initial w.2 (Logging.level w.1) := by
  induction deeds generalizing w u with
  | nil => exact h
  | cons deed deeds ih => exact (perform_kept hmake hpoll deed h).bind fun _ w hw => ih hw

/-! ## Nothing but the end of a region turns the log on -/

/-- What is done beside the polls keeps the level. -/
def Aside (deed : Deed W M) : Prop :=
  match deed with
  | .other e => e.Keeps LevelKept
  | _ => True

omit [DecidableEq ι] in
theorem pollEvents_muffled {w w' : W} {x y : Option Level} (hdue : due y w' = due x w)
    (hquiet : y.isSome = true → Logging.level w' = .off ∨ x.isSome = true ∧ LevelKept w w') :
    Muffled (pollEvents i (Logging.level w) (Logging.level w') x y) := by
  cases y with
  | none =>
    cases x with
    | none => exact change_muffled (Or.inr hdue)
    | some level => exact fun level hmem => nomatch List.mem_singleton.1 hmem
  | some level' =>
    cases x with
    | none =>
      obtain hoff | ⟨hnone, -⟩ := hquiet rfl
      · exact (change_muffled (Or.inl hoff)).append fun level hmem => nomatch List.mem_singleton.1 hmem
      · cases hnone
    | some level => exact change_muffled ((hquiet rfl).imp_right And.right)

theorem perform_muffled (hmake : ∀ i m, (make i m).Keeps LevelKept) (hpoll : ∀ i, Quiet (poll i) (back i))
    {deed : Deed W M} (hdeed : Aside deed) (w : W) (h : Muffled u.events) :
    (perform make poll back deed (w, u)).Ensures (fun _ => True) fun _ w => Muffled w.2.events := by
  cases deed with
  | make i m =>
    rw [perform, Effect.bind_of_returned _ (reads_level w u)]
    refine (((hmake i m).ensures w).within_and u).result.bind ?_
    rintro x ⟨w', _⟩ ⟨rfl, hlevel⟩
    exact (change_muffled (Or.inr hlevel)).append h
  | drop i => exact h
  | other e =>
    rw [perform, Effect.bind_of_returned _ (reads_level w u)]
    refine ((hdeed.ensures w).within_and u).result.bind ?_
    rintro _ ⟨w', _⟩ ⟨rfl, hlevel⟩
    exact (change_muffled (Or.inr hlevel)).append h
  | poll i =>
    rw [perform, Effect.bind_of_returned _ (reads_level w u), Effect.bind_apply]
    simp only [Effect.reads]
    cases hx : u.crew i with
    | none => exact h
    | some x =>
      refine ((hpoll i x w).within_and u).bind ?_
      rintro ⟨answer, y⟩ ⟨w', _⟩ ⟨rfl, hpaid⟩
      exact (pollEvents_muffled hpaid.due hpaid.quiet).append h

theorem run_muffled (hmake : ∀ i m, (make i m).Keeps LevelKept) (hpoll : ∀ i, Quiet (poll i) (back i))
    {deeds : List (Deed W M)} (hdeeds : ∀ deed ∈ deeds, Aside deed) (w : W) (h : Muffled u.events) :
    (run make poll back deeds (w, u)).Ensures (fun _ => True) fun _ w => Muffled w.2.events := by
  induction deeds generalizing w u with
  | nil => exact h
  | cons deed deeds ih =>
    have hrest : ∀ deed ∈ deeds, Aside deed := fun d hd => hdeeds d (List.mem_cons_of_mem _ hd)
    exact (perform_muffled hmake hpoll (hdeeds deed List.mem_cons_self) w h).bind fun _ w hw => ih hrest w.1 hw

end Keeping

/-! ## What the history says of the level -/

/-- The level is told by the history, and whether it is the one at the beginning. -/
structure Exact (back : ∀ i, F i → Option Level) (initial : Level) (u : InUse F) (level : Level) : Prop extends
    Kept back initial u level where
  undone : Undone u.events → level = initial
  off : Muffled u.events → ¬ Undone u.events → level = .off

omit [DecidableEq ι] in
theorem Kept.exact {back : ∀ i, F i → Option Level} {initial level : Level} {u : InUse F}
    (h : Kept back initial u level) : Exact back initial u level :=
  ⟨h, fun hundone => h.told.unique (hundone.told initial), h.told.eq_off⟩

end Runs

end Stepwise.Muting
