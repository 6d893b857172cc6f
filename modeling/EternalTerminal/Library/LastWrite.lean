import Mathlib.Data.List.Basic

/-!
# Registers that the last write decides

A sequence of steps, each of which may write a register with a value of its own. What the register
holds in the end is what the last step that writes it writes, so one more step between the others is
seen in the end unless a later step writes again or the value was there already. The steps may also be
those of a fold that can fail, as long as whether it does is a matter of the single step.
-/

variable {α β σ ε : Type*}

/-- What a register that starts with `start` holds after the steps. -/
def lastWrite (writes : α → Option β) (start : β) (steps : List α) : β :=
  steps.foldl (fun held a => (writes a).getD held) start

/-- A step between `before` and `after` that leaves no trace in the register. -/
def Unseen (writes : α → Option β) (start : β) (before : List α) (a : α) (after : List α) : Prop :=
  ∀ v, writes a = some v → (∃ b ∈ after, (writes b).isSome) ∨ lastWrite writes start before = v

section

variable {writes : α → Option β}

@[simp] theorem lastWrite_cons (start : β) (a : α) (steps : List α) :
    lastWrite writes start (a :: steps) = lastWrite writes ((writes a).getD start) steps := rfl

@[simp] theorem lastWrite_append (start : β) (first second : List α) :
    lastWrite writes start (first ++ second) = lastWrite writes (lastWrite writes start first) second :=
  List.foldl_append

theorem lastWrite_of_written {steps : List α} (h : ∃ b ∈ steps, (writes b).isSome) (v w : β) :
    lastWrite writes v steps = lastWrite writes w steps := by
  induction steps generalizing v w with
  | nil => simp at h
  | cons a steps ih =>
      rw [lastWrite_cons, lastWrite_cons]
      rcases hwrites : writes a with _ | x
      · rw [List.exists_mem_cons_iff, hwrites] at h
        exact ih (h.resolve_left (by simp)) _ _
      · rfl

theorem lastWrite_of_not_written {steps : List α} (h : ¬ ∃ b ∈ steps, (writes b).isSome) (v : β) :
    lastWrite writes v steps = v := by
  induction steps with
  | nil => rfl
  | cons a steps ih =>
      rw [List.exists_mem_cons_iff, not_or, Option.not_isSome_iff_eq_none] at h
      rw [lastWrite_cons, h.1]
      exact ih h.2

theorem lastWrite_insert_iff (start : β) (before : List α) (a : α) (after : List α) :
    lastWrite writes start (before ++ a :: after) = lastWrite writes start (before ++ after) ↔
      Unseen writes start before a after := by
  rw [lastWrite_append, lastWrite_append, lastWrite_cons]
  by_cases hlater : ∃ b ∈ after, (writes b).isSome
  · exact iff_of_true (lastWrite_of_written hlater _ _) fun _ _ => .inl hlater
  · rw [lastWrite_of_not_written hlater, lastWrite_of_not_written hlater]
    rcases hwrites : writes a with _ | v
    · exact iff_of_true rfl fun v hv => by simp [hwrites] at hv
    · constructor
      · intro hsame w hw
        rw [hwrites, Option.some.injEq] at hw
        exact .inr (hw ▸ hsame.symm)
      · exact fun hunseen => ((hunseen v hwrites).resolve_left hlater).symm

end

/-! ### Registers of a fold that can fail -/

/-- A step that succeeds writes what it writes to the register and leaves it alone otherwise. -/
def IsRegister (step : σ → α → Except ε σ) (get : σ → β) (writes : α → Option β) : Prop :=
  ∀ ⦃s a t⦄, step s a = .ok t → get t = (writes a).getD (get s)

/-- A step that succeeds appends to the list what it appends. -/
def IsQueue (step : σ → α → Except ε σ) (get : σ → List β) (pushes : α → List β) : Prop :=
  ∀ ⦃s a t⦄, step s a = .ok t → get t = get s ++ pushes a

section

variable {step : σ → α → Except ε σ} {s t u : σ} {before after steps : List α} {a : α}

theorem foldlM_cons_eq_ok :
    (a :: steps).foldlM step s = .ok t ↔
      ∃ next, step s a = .ok next ∧ steps.foldlM step next = .ok t := by
  rw [List.foldlM_cons]
  cases step s a <;> simp [bind, Except.bind]

theorem foldlM_ok_iff {Accepts : α → Prop} (hstep : ∀ s a, (∃ t, step s a = .ok t) ↔ Accepts a) :
    (∃ t, steps.foldlM step s = .ok t) ↔ ∀ a ∈ steps, Accepts a := by
  induction steps generalizing s with
  | nil => exact iff_of_true ⟨s, rfl⟩ (by simp)
  | cons a steps ih =>
      rw [List.forall_mem_cons, ← hstep s a]
      simp only [foldlM_cons_eq_ok]
      constructor
      · rintro ⟨t, next, hfirst, hrest⟩
        exact ⟨⟨next, hfirst⟩, ih.mp ⟨t, hrest⟩⟩
      · rintro ⟨⟨next, hfirst⟩, hall⟩
        obtain ⟨t, hrest⟩ := ih.mpr hall
        exact ⟨t, next, hfirst, hrest⟩

theorem IsRegister.foldlM_eq {get : σ → β} {writes : α → Option β} (h : IsRegister step get writes)
    (hfold : steps.foldlM step s = .ok t) : get t = lastWrite writes (get s) steps := by
  induction steps generalizing s with
  | nil =>
      obtain rfl := Except.ok.inj hfold
      rfl
  | cons a steps ih =>
      obtain ⟨next, hstep, hrest⟩ := foldlM_cons_eq_ok.mp hfold
      rw [ih hrest, h hstep, lastWrite_cons]

theorem IsQueue.foldlM_eq {get : σ → List β} {pushes : α → List β} (h : IsQueue step get pushes)
    (hfold : steps.foldlM step s = .ok t) : get t = get s ++ steps.flatMap pushes := by
  induction steps generalizing s with
  | nil =>
      obtain rfl := Except.ok.inj hfold
      simp
  | cons a steps ih =>
      obtain ⟨next, hstep, hrest⟩ := foldlM_cons_eq_ok.mp hfold
      rw [ih hrest, h hstep, List.flatMap_cons, List.append_assoc]

variable (hplain : (before ++ after).foldlM step s = .ok t)
  (hinsert : (before ++ a :: after).foldlM step s = .ok u)
include hplain hinsert

/-- The register is the same with the step and without it exactly if the step is unseen. -/
theorem IsRegister.insert_iff {get : σ → β} {writes : α → Option β} (h : IsRegister step get writes) :
    get u = get t ↔ Unseen writes (get s) before a after := by
  rw [h.foldlM_eq hplain, h.foldlM_eq hinsert]
  exact lastWrite_insert_iff _ _ _ _

theorem IsQueue.insert_iff {get : σ → List β} {pushes : α → List β} (h : IsQueue step get pushes) :
    get u = get t ↔ pushes a = [] := by
  rw [h.foldlM_eq hplain, h.foldlM_eq hinsert, List.append_cancel_left_eq, List.flatMap_append,
    List.flatMap_append, List.append_cancel_left_eq, List.flatMap_cons, List.append_left_eq_self]

end
