import Mathlib.Data.List.Basic
import Mathlib.Data.List.Infix
import Mathlib.Algebra.BigOperators.Group.List.Basic
import Mathlib.Algebra.GroupWithZero.Nat
import Mathlib.Algebra.Order.BigOperators.Group.List

/-!
# An append-only log of which the newest entries are retained

What a replay buffer is for: entries are numbered from `1` by their place in a log that only grows,
the newest ones are kept, and a peer that has the first `n` is given the rest if all of it is still
kept. Old entries are given up by weight. The log itself is never stored; it says what the kept
entries are the end of.
-/

/-- The kept entries, oldest first, end the log. -/
structure RetainedLog (α : Type*) where
  log : List α
  kept : List α
  kept_suffix : kept <:+ log

namespace RetainedLog

variable {α : Type*}

def append (r : RetainedLog α) (a : α) : RetainedLog α :=
  ⟨r.log ++ [a], r.kept ++ [a], List.suffix_append_self_iff.mpr r.kept_suffix⟩

/-- Give up everything but some newest kept entries. -/
def retain (r : RetainedLog α) (kept : List α) (h : kept <:+ r.kept) : RetainedLog α :=
  ⟨r.log, kept, h.trans r.kept_suffix⟩

/-- What a peer that has the first `n` entries still needs, if it is all kept. -/
def replay (r : RetainedLog α) (n : Nat) : Option (List α) :=
  if n ≤ r.log.length ∧ r.log.length ≤ n + r.kept.length then some (r.log.drop n) else none

theorem length_kept_le (r : RetainedLog α) : r.kept.length ≤ r.log.length := r.kept_suffix.length_le

theorem replay_eq_some {r : RetainedLog α} {n : Nat} {entries : List α} :
    r.replay n = some entries ↔
      n ≤ r.log.length ∧ r.log.length ≤ n + r.kept.length ∧ entries = r.log.drop n := by
  unfold replay
  split_ifs with h
  · simp only [Option.some.injEq, h, true_and]
    exact eq_comm
  · simp only [false_iff]
    exact fun hsome => h ⟨hsome.1, hsome.2.1⟩

theorem drop_log_eq (r : RetainedLog α) {m : Nat} (h : m ≤ r.kept.length) :
    r.log.drop (r.log.length - m) = r.kept.drop (r.kept.length - m) := by
  obtain ⟨forgotten, hlog⟩ := r.kept_suffix
  have hlength : r.log.length = forgotten.length + r.kept.length := by
    rw [← hlog, List.length_append]
  have hskip : r.log.length - m = forgotten.length + (r.kept.length - m) := by omega
  rw [hskip, ← hlog, List.drop_append]
  simp

end RetainedLog

/-! ### Giving up entries by weight -/

namespace List

variable {α : Type*} (weight : α → Nat)

/-- The total weight of a list. -/
def weightSum (l : List α) : Nat := (l.map weight).sum

@[simp] theorem weightSum_nil : weightSum weight ([] : List α) = 0 := rfl

@[simp] theorem weightSum_cons (a : α) (l : List α) :
    weightSum weight (a :: l) = weight a + weightSum weight l := by
  simp [weightSum]

@[simp] theorem weightSum_append (l₁ l₂ : List α) :
    weightSum weight (l₁ ++ l₂) = weightSum weight l₁ + weightSum weight l₂ := by
  simp [weightSum]

@[simp] theorem weightSum_reverse (l : List α) : weightSum weight l.reverse = weightSum weight l := by
  simp [weightSum, List.sum_reverse]

/-- Drop entries from the front while the rest weighs more than the bound. -/
def trim (bound : Nat) : List α → List α
  | [] => []
  | a :: l => if weightSum weight (a :: l) > bound then trim bound l else a :: l

theorem trim_suffix (bound : Nat) (l : List α) : trim weight bound l <:+ l := by
  induction l with
  | nil => exact List.suffix_rfl
  | cons a l ih =>
      unfold trim
      split_ifs
      · exact ih.trans (List.suffix_cons a l)
      · exact List.suffix_rfl

theorem weightSum_trim_le (bound : Nat) (l : List α) :
    weightSum weight (trim weight bound l) ≤ bound := by
  induction l with
  | nil => exact Nat.zero_le _
  | cons a l ih =>
      unfold trim
      split_ifs with h
      · exact ih
      · omega

/-- Every end of the list that weighs at most the bound is an end of what is kept. -/
def Covers (bound : Nat) (kept l : List α) : Prop :=
  ∀ other, other <:+ l → weightSum weight other ≤ bound → other <:+ kept

/-- `kept` is the longest end of the list that weighs at most the bound. -/
structure IsLongestEnd (bound : Nat) (kept l : List α) : Prop where
  suffix : kept <:+ l
  weight_le : weightSum weight kept ≤ bound
  longest : Covers weight bound kept l

variable {weight} {bound : Nat} {kept l : List α}

theorem Covers.append (h : Covers weight bound kept l) (a : α) :
    Covers weight bound (kept ++ [a]) (l ++ [a]) := by
  intro other hother hweight
  rcases List.suffix_concat_iff.mp hother with rfl | ⟨t, rfl, ht⟩
  · exact List.nil_suffix
  · rw [weightSum_append] at hweight
    exact List.suffix_append_self_iff.mpr (h t ht (by omega))

theorem isLongestEnd_trim (weight : α → Nat) (bound : Nat) (l : List α) :
    IsLongestEnd weight bound (trim weight bound l) l := by
  refine ⟨trim_suffix _ _ _, weightSum_trim_le _ _ _, ?_⟩
  induction l with
  | nil => exact fun other hother _ => hother
  | cons a l ih =>
      intro other hother hweight
      unfold trim
      split_ifs with hover
      · rcases List.suffix_cons_iff.mp hother with rfl | htail
        · omega
        · exact ih other htail hweight
      · exact hother

/-- Trimming what covers the list leaves the longest end that fits. -/
theorem Covers.isLongestEnd_trim (h : Covers weight bound kept l) (hsuffix : kept <:+ l) :
    IsLongestEnd weight bound (trim weight bound kept) l := by
  have htrim := List.isLongestEnd_trim weight bound kept
  exact ⟨htrim.suffix.trans hsuffix, htrim.weight_le,
    fun other hother hweight => htrim.longest other (h other hother hweight) hweight⟩

end List
