import Mathlib.Data.List.Basic
import Mathlib.Data.List.Infix

/-!
# Cutting a list at a separator

The first and the last separator of a list, and what they leave on either side. A list joined of parts
without separators has one separator fewer than parts, and two next to each other only at an empty part.
-/

namespace List

variable {α : Type*}

section

variable [DecidableEq α]

/-- What is before and behind the first `sep`. -/
def splitFirst (sep : α) : List α → Option (List α × List α)
  | [] => none
  | a :: l =>
    if a = sep then some ([], l)
    else (splitFirst sep l).map fun (before, behind) => (a :: before, behind)

/-- What is before and behind the last `sep`. -/
def splitLast (sep : α) (l : List α) : Option (List α × List α) :=
  (splitFirst sep l.reverse).map fun (behind, before) => (before.reverse, behind.reverse)

variable {sep : α} {l : List α}

theorem splitFirst_append {before : List α} (h : sep ∉ before) (behind : List α) :
    splitFirst sep (before ++ sep :: behind) = some (before, behind) := by
  induction before with
  | nil => simp [splitFirst]
  | cons a before ih =>
      rw [List.mem_cons, not_or] at h
      obtain ⟨hne, hrest⟩ := h
      simp only [List.cons_append, splitFirst, if_neg (Ne.symm hne), ih hrest, Option.map_some]

theorem splitFirst_eq_none : splitFirst sep l = none ↔ sep ∉ l := by
  induction l with
  | nil => simp [splitFirst]
  | cons a l ih =>
      by_cases heq : a = sep
      · simp [splitFirst, heq]
      · simp [splitFirst, heq, Ne.symm heq, ih]

theorem splitFirst_eq_some {before behind : List α} :
    splitFirst sep l = some (before, behind) ↔ l = before ++ sep :: behind ∧ sep ∉ before := by
  constructor
  · intro h
    have hmem : sep ∈ l := by
      by_contra hnot
      rw [splitFirst_eq_none.mpr hnot] at h
      cases h
    obtain ⟨first, rest, rfl, hfirst⟩ := eq_append_cons_of_mem hmem
    rw [splitFirst_append hfirst] at h
    obtain ⟨rfl, rfl⟩ := Prod.mk.inj (Option.some.inj h)
    exact ⟨rfl, hfirst⟩
  · rintro ⟨rfl, hbefore⟩
    exact splitFirst_append hbefore behind

theorem splitLast_append {behind : List α} (h : sep ∉ behind) (before : List α) :
    splitLast sep (before ++ sep :: behind) = some (before, behind) := by
  have hreverse : (before ++ sep :: behind).reverse = behind.reverse ++ sep :: before.reverse := by
    simp
  rw [splitLast, hreverse, splitFirst_append (by simpa using h)]
  simp

end

/-! ### Joined parts -/

/-- Parts that can be told apart after they are joined: not empty and without separators. -/
def Segments (sep : α) (parts : List (List α)) : Prop := ∀ part ∈ parts, part ≠ [] ∧ sep ∉ part

variable {sep : α}

theorem Segments.count_intercalate [DecidableEq α] {parts : List (List α)} (h : Segments sep parts) :
    ([sep].intercalate parts).count sep = parts.length - 1 := by
  induction parts with
  | nil => rfl
  | cons part parts ih =>
      obtain ⟨⟨-, hpart⟩, hrest⟩ := List.forall_mem_cons.mp h
      cases parts with
      | nil =>
          rw [List.intercalate_singleton]
          exact List.count_eq_zero.mpr hpart
      | cons next parts =>
          rw [List.intercalate_cons_cons, List.count_append, List.count_append, ih hrest,
            List.count_eq_zero.mpr hpart, List.count_singleton_self]
          simp only [List.length_cons]
          omega

theorem intercalate_concat {parts : List (List α)} (h : parts ≠ []) (last : List α) :
    [sep].intercalate (parts ++ [last]) = [sep].intercalate parts ++ sep :: last := by
  induction parts with
  | nil => exact absurd rfl h
  | cons part parts ih =>
      cases parts with
      | nil =>
          rw [List.singleton_append, List.intercalate_cons_cons, List.intercalate_singleton,
            List.intercalate_singleton, List.append_assoc]
          rfl
      | cons next parts =>
          rw [List.cons_append, List.cons_append, List.intercalate_cons_cons, ← List.cons_append,
            ih (List.cons_ne_nil _ _), List.intercalate_cons_cons]
          simp only [List.append_assoc]

theorem Segments.head_ne {part : List α} {parts : List (List α)} (h : Segments sep (part :: parts))
    (behind : List α) : [sep].intercalate (part :: parts) ≠ sep :: behind := by
  obtain ⟨⟨hnil, hpart⟩, -⟩ := List.forall_mem_cons.mp h
  obtain ⟨a, part, rfl⟩ := List.exists_cons_of_ne_nil hnil
  have hne : a ≠ sep := fun heq => hpart (heq ▸ List.mem_cons_self)
  cases parts with
  | nil =>
      rw [List.intercalate_singleton]
      exact fun heq => hne (List.cons.inj heq).1
  | cons next parts =>
      rw [List.intercalate_cons_cons]
      exact fun heq => hne (List.cons.inj heq).1

theorem Segments.not_double [DecidableEq α] {parts : List (List α)} (h : Segments sep parts) :
    ¬ [sep, sep] <:+: [sep].intercalate parts := by
  induction parts with
  | nil => simp
  | cons part parts ih =>
      obtain ⟨⟨-, hpart⟩, hrest⟩ := List.forall_mem_cons.mp h
      rintro ⟨before, behind, hdouble⟩
      cases parts with
      | nil =>
          rw [List.intercalate_singleton] at hdouble
          exact hpart (hdouble ▸ by simp)
      | cons next parts =>
          have hjoined : [sep].intercalate (part :: next :: parts) =
              part ++ sep :: [sep].intercalate (next :: parts) := by
            rw [List.intercalate_cons_cons, List.append_assoc, List.singleton_append]
          have hsplit := splitFirst_append hpart ([sep].intercalate (next :: parts))
          rw [← hjoined, ← hdouble] at hsplit
          by_cases hmem : sep ∈ before
          · -- the first separator is before the two, so they are in the other parts
            obtain ⟨first, later, rfl, hfirst⟩ := List.eq_append_cons_of_mem hmem
            simp only [List.append_assoc, List.cons_append, splitFirst_append hfirst,
              Option.some.injEq, Prod.mk.injEq] at hsplit
            exact ih hrest ⟨later, behind, by simpa using hsplit.2⟩
          · -- it is the first of the two, so the next part begins with the second
            rw [List.append_assoc, List.cons_append, splitFirst_append hmem, Option.some.injEq,
              Prod.mk.injEq] at hsplit
            exact Segments.head_ne hrest behind hsplit.2.symm

end List
