import Stepwise.Log

/-! # What a history tells about the level

Any number of regions turn the log off, each at its own time, and put back the level they found. At which level the log
is then, what happened to the regions tells. Histories have the latest event first.

* `Told`: after a region has ended the level is the one from before it was entered, and after anything else it is what
  the latest event set. `Told.unique` says that a history tells one level only.
* `Undone`: the history falls into stretches, each from the entry of one region to the end of that same region. What
  happens inside a stretch does not count, also where a region is entered there that never ends.
* `Told.eq_initial_iff`: where nothing but the end of a region turns the log on, the level is the one at the beginning
  exactly where the history is undone.
* `Held` is what is known of a level that a region has kept aside.
-/

namespace Stepwise.Muting
set_option autoImplicit false

/-- What happened to the level of the log. -/
inductive Event (ι : Type)
  /-- A region was entered and turned the log off. -/
  | entered (i : ι)
  /-- A region ended and put back the level it had found. -/
  | left (i : ι)
  /-- Something else set the level. -/
  | changed (level : Level)

variable {ι : Type} {initial level : Level} {events : List (Event ι)} {i : ι}

/-- The history tells that the log is at this level. The entry that belongs to an end is the latest one of that
region. -/
inductive Told (initial : Level) : List (Event ι) → Level → Prop
  | start : Told initial [] initial
  | entered {i : ι} {earlier : List (Event ι)} : Told initial (.entered i :: earlier) .off
  | changed {level : Level} {earlier : List (Event ι)} : Told initial (.changed level :: earlier) level
  | left {i : ι} {inside earlier : List (Event ι)} {level : Level} (hinside : .entered i ∉ inside)
      (hearlier : Told initial earlier level) : Told initial (.left i :: (inside ++ .entered i :: earlier)) level

/-- All of the history lies between the entry and the end of some region. -/
inductive Undone : List (Event ι) → Prop
  | nil : Undone []
  | stretch {i : ι} {inside earlier : List (Event ι)} (hinside : .entered i ∉ inside) (hearlier : Undone earlier) :
      Undone (.left i :: (inside ++ .entered i :: earlier))

/-- Nothing but the end of a region turned the log on. -/
def Muffled (events : List (Event ι)) : Prop := ∀ level, .changed level ∈ events → level = .off

/-- Before its latest entry the region found this level. -/
def Held (initial : Level) (events : List (Event ι)) (i : ι) (level : Level) : Prop :=
  ∃ inside earlier, events = inside ++ .entered i :: earlier ∧ .entered i ∉ inside ∧ Told initial earlier level

/-! ## One level -/

/-- What comes before the first occurrence decides what comes after it. -/
theorem after_unique {α : Type} {a : α} {xs ys zs ws : List α} (hx : a ∉ xs) (hy : a ∉ ys)
    (h : xs ++ a :: zs = ys ++ a :: ws) : zs = ws := by
  induction xs generalizing ys with
  | nil =>
    cases ys with
    | nil => exact (List.cons.inj h).2
    | cons y ys => exact absurd (List.mem_cons.2 (Or.inl (List.cons.inj h).1)) hy
  | cons x xs ih =>
    cases ys with
    | nil => exact absurd (List.mem_cons.2 (Or.inl (List.cons.inj h).1.symm)) hx
    | cons y ys =>
      exact ih (fun hmem => hx (List.mem_cons_of_mem x hmem)) (fun hmem => hy (List.mem_cons_of_mem y hmem))
        (List.cons.inj h).2

theorem Told.unique {level' : Level} (h : Told initial events level) (h' : Told initial events level') :
    level = level' := by
  induction h with
  | start => cases h'; rfl
  | entered => cases h'; rfl
  | changed => cases h'; rfl
  | @left i inside earlier level hinside _ ih =>
    -- the entry that belongs to this end is the same one in both, and so is what came before it
    generalize he : Event.left i :: (inside ++ Event.entered i :: earlier) = events' at h'
    cases h' with
    | @left j inside' earlier' _ hinside' hearlier' =>
      obtain ⟨hij, hrest⟩ := List.cons.inj he
      cases hij
      cases after_unique hinside hinside' hrest
      exact ih hearlier'
    | _ => cases he

/-! ## The level at the beginning -/

theorem Undone.told (h : Undone events) (initial : Level) : Told initial events initial := by
  induction h with
  | nil => exact .start
  | stretch hinside _ ih => exact .left hinside ih

/-- Where something is not undone, the log was left off by it. -/
theorem Told.eq_off (h : Told initial events level) (hmuffled : Muffled events) (hundone : ¬ Undone events) :
    level = .off := by
  induction h with
  | start => exact absurd .nil hundone
  | entered => rfl
  | changed => exact hmuffled _ List.mem_cons_self
  | left hinside _ ih =>
    refine ih (fun level hmem => hmuffled level ?_) fun hearlier => hundone (.stretch hinside hearlier)
    exact List.mem_cons_of_mem _ (List.mem_append_right _ (List.mem_cons_of_mem _ hmem))

theorem Told.eq_initial_iff (h : Told initial events level) (hmuffled : Muffled events) :
    level = initial ↔ initial = .off ∨ Undone events := by
  by_cases hundone : Undone events
  · exact iff_of_true (h.unique (hundone.told initial)) (Or.inr hundone)
  · rw [h.eq_off hmuffled hundone]
    exact ⟨fun heq => Or.inl heq.symm, fun hor => (hor.resolve_right hundone).symm⟩

/-! ## A level that is kept aside -/

theorem Held.left (h : Held initial events i level) : Told initial (.left i :: events) level := by
  obtain ⟨inside, earlier, rfl, hinside, htold⟩ := h
  exact .left hinside htold

theorem Held.append (h : Held initial events i level) {later : List (Event ι)} (hlater : .entered i ∉ later) :
    Held initial (later ++ events) i level := by
  obtain ⟨inside, earlier, rfl, hinside, htold⟩ := h
  refine ⟨later ++ inside, earlier, (List.append_assoc _ _ _).symm, ?_, htold⟩
  exact fun hmem => (List.mem_append.1 hmem).elim hlater hinside

theorem Told.held (h : Told initial events level) {later : List (Event ι)} (hlater : .entered i ∉ later) :
    Held initial (later ++ .entered i :: events) i level := ⟨later, events, rfl, hlater, h⟩

end Stepwise.Muting
