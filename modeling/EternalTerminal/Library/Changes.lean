import Mathlib.Data.List.Destutter

/-!
# The changes of a quantity

A quantity is looked at again and again, and each value that differs from the one seen before is
reported. What is reported is the samples without their repetitions.
-/

variable {α : Type*} [DecidableEq α]

/-- The samples that differ from the one before; `first` is the value at the start. -/
def List.changes (first : α) (samples : List α) : List α := (samples.destutter' (· ≠ ·) first).tail

/-- The samples behind the value at the start, repetitions removed. -/
theorem List.cons_changes (first : α) (samples : List α) :
    first :: samples.changes first = samples.destutter' (· ≠ ·) first := by
  unfold changes
  induction samples with
  | nil => rfl
  | cons sample samples ih =>
      rw [destutter'_cons]
      split_ifs
      · rfl
      · exact ih

@[simp] theorem List.changes_nil (first : α) : ([] : List α).changes first = [] := rfl

theorem List.changes_cons (first sample : α) (samples : List α) :
    (sample :: samples).changes first =
      if first ≠ sample then sample :: samples.changes sample else samples.changes first := by
  unfold changes
  rw [destutter'_cons]
  split_ifs
  · exact (cons_changes sample samples).symm
  · rfl

theorem List.changes_concat (first sample : α) (samples : List α) :
    (samples ++ [sample]).changes first =
      samples.changes first ++ if samples.getLastD first ≠ sample then [sample] else [] := by
  induction samples generalizing first with
  | nil =>
      rw [nil_append, changes_cons]
      rfl
  | cons other samples ih =>
      rw [cons_append, changes_cons, changes_cons, ih, ih, getLastD_cons]
      by_cases hfirst : first = other
      · subst hfirst
        simp
      · simp [hfirst]
