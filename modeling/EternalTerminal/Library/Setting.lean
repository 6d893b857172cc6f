import EternalTerminal.Library.Transducer

/-!
# A setting that is changed and put back

A program changes a setting that is not its own. It keeps the value that it found, and puts it back when
it is done. A change that it does not know of, or a value that it drops, is never made good: what it finds
from then on, and puts back, is a changed value.
-/

/-- The setting, and the value that a change has found. -/
structure Setting (α : Type*) where
  current : α
  saved : Option α

namespace Setting

variable {α : Type*} {Changed : α → Prop}

/-- What the program does to the setting. A change sets it to a changed value. -/
inductive Call (Changed : α → Prop) where
  | idle
  | change (next : { value // Changed value })
  /-- A change after which the program takes the setting for unchanged. -/
  | leak (next : { value // Changed value })
  | restore
  /-- The value that was found is dropped. -/
  | drop

/-- A setting that is changed is not changed again, and one that is not is not put back. -/
def step : Setting α → Call Changed → Setting α
  | s, .idle => s
  | ⟨current, none⟩, .change next => ⟨next, some current⟩
  | ⟨_, none⟩, .leak next => ⟨next, none⟩
  | ⟨_, some found⟩, .restore => ⟨found, none⟩
  | ⟨current, some _⟩, .drop => ⟨current, none⟩
  | s, _ => s

/-- The program keeps track of the setting. -/
def Keeps (s : Setting α) : Call Changed → Prop
  | .leak _ => s.saved.isSome
  | .drop => s.saved = none
  | _ => True

def machine (Changed : α → Prop) : Transducer (Setting α) (Call Changed) Unit :=
  fun s call => some (s.step call, [])

/-- The setting is as it was, or the value that it had is kept. -/
def Tracked (Changed : α → Prop) (original : α) (s : Setting α) : Prop :=
  s = ⟨original, none⟩ ∨ s.saved = some original ∧ Changed s.current

/-- The value that the setting had is gone. -/
def Lost (Changed : α → Prop) (s : Setting α) : Prop :=
  Changed s.current ∧ ∀ found, s.saved = some found → Changed found

variable {original : α} {s : Setting α} {call : Call Changed}

theorem Tracked.step (h : Tracked Changed original s) (hkeeps : s.Keeps call) :
    Tracked Changed original (s.step call) := by
  obtain ⟨current, saved⟩ := s
  obtain h | ⟨hsaved, hchanged⟩ := h
  · obtain ⟨rfl, rfl⟩ := Setting.mk.inj h
    cases call with
    | change next => exact .inr ⟨rfl, next.2⟩
    | leak next => cases hkeeps
    | _ => exact .inl rfl
  · obtain rfl : saved = some original := hsaved
    cases call with
    | restore => exact .inl rfl
    | drop => cases hkeeps
    | _ => exact .inr ⟨rfl, hchanged⟩

theorem Tracked.lost (h : Tracked Changed original s) (hkeeps : ¬ s.Keeps call) :
    Lost Changed (s.step call) := by
  obtain ⟨current, saved⟩ := s
  obtain h | ⟨hsaved, hchanged⟩ := h
  · obtain ⟨rfl, rfl⟩ := Setting.mk.inj h
    cases call with
    | leak next => exact ⟨next.2, fun found hfound => by cases hfound⟩
    | drop => exact absurd rfl hkeeps
    | _ => exact absurd trivial hkeeps
  · obtain rfl : saved = some original := hsaved
    cases call with
    | drop => exact ⟨hchanged, fun found hfound => by cases hfound⟩
    | leak next => exact absurd rfl hkeeps
    | _ => exact absurd trivial hkeeps

theorem Lost.step (h : Lost Changed s) : Lost Changed (s.step call) := by
  obtain ⟨current, saved⟩ := s
  obtain ⟨hcurrent, hsaved⟩ := h
  cases call <;> cases saved
  case change.none next =>
    refine ⟨next.2, fun found hfound => ?_⟩
    obtain rfl := Option.some.inj hfound
    exact hcurrent
  case leak.none next => exact ⟨next.2, fun found hfound => by cases hfound⟩
  case restore.some found => exact ⟨hsaved found rfl, fun found hfound => by cases hfound⟩
  case drop.some found => exact ⟨hcurrent, fun found hfound => by cases hfound⟩
  all_goals exact ⟨hcurrent, hsaved⟩

end Setting
