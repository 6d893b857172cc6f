import Mathlib.Data.List.Basic
import Mathlib.Data.List.Infix
import EternalTerminal.Library.RetainedLog

/-!
# The first occurrence of a word

Where a word begins in a list, told by the width of what stands before it. The occurrence that is put
there is the first one if the word does not occur before, even in part across the seam: a word that
never ends the way it begins cannot overlap itself.
-/

namespace List

variable {α : Type*}

/-- The width of what is before the first occurrence of the word. -/
def findWord [DecidableEq α] (width : α → Nat) (word : List α) : List α → Option Nat
  | [] => if word = [] then some 0 else none
  | a :: l => if word <+: a :: l then some 0 else (findWord width word l).map (width a + ·)

/-- The word occurs behind `before`, and nowhere earlier. -/
structure IsFirst (word before l : List α) : Prop where
  occurs : before ++ word <+: l
  le : ∀ other, other ++ word <+: l → before.length ≤ other.length

variable {word before l : List α}

theorem IsFirst.unique {other : List α} (h : IsFirst word before l) (hother : IsFirst word other l) :
    before = other := by
  have hbefore : before <+: l := (prefix_append _ _).trans h.occurs
  have hstarts : other <+: l := (prefix_append _ _).trans hother.occurs
  exact (prefix_of_prefix_length_le hbefore hstarts (h.le other hother.occurs)).eq_of_length_le
    (hother.le before h.occurs)

theorem isFirst_nil (h : word <+: l) : IsFirst word [] l :=
  ⟨by simpa using h, fun _ _ => Nat.zero_le _⟩

theorem isFirst_cons {a : α} (h : ¬ word <+: a :: l) :
    IsFirst word (a :: before) (a :: l) ↔ IsFirst word before l := by
  constructor
  · intro hfirst
    refine ⟨(cons_prefix_cons.mp hfirst.occurs).2, fun other hother => ?_⟩
    have hle := hfirst.le (a :: other) (cons_prefix_cons.mpr ⟨rfl, hother⟩)
    simpa using hle
  · intro hfirst
    refine ⟨cons_prefix_cons.mpr ⟨rfl, hfirst.occurs⟩, fun other hother => ?_⟩
    cases other with
    | nil => exact absurd hother h
    | cons b other =>
        have hle := hfirst.le other (cons_prefix_cons.mp hother).2
        simpa using hle

/-! ### The search -/

section

variable [DecidableEq α] (width : α → Nat)

theorem findWord_eq_none : findWord width word l = none ↔ ¬ word <:+: l := by
  induction l with
  | nil => simp [findWord]
  | cons a l ih =>
      rw [findWord, infix_cons_iff, not_or]
      split_ifs with h
      · simp [h]
      · simp [h, ih]

theorem findWord_eq_some {n : Nat} :
    findWord width word l = some n ↔ ∃ before, IsFirst word before l ∧ weightSum width before = n := by
  induction l generalizing n with
  | nil =>
      rw [findWord]
      split_ifs with h
      · subst h
        constructor
        · intro hzero
          exact ⟨[], isFirst_nil (prefix_refl _), by simpa using hzero⟩
        · rintro ⟨before, hfirst, rfl⟩
          have hnil : before = [] := by simpa using hfirst.occurs
          rw [hnil, weightSum_nil]
      · simp only [false_iff, not_exists, not_and]
        intro before hfirst
        have hnil : before = [] ∧ word = [] := by simpa using hfirst.occurs
        exact absurd hnil.2 h
  | cons a l ih =>
      rw [findWord]
      split_ifs with h
      · constructor
        · intro hzero
          exact ⟨[], isFirst_nil h, by simpa using hzero⟩
        · rintro ⟨before, hfirst, rfl⟩
          rw [hfirst.unique (isFirst_nil h), weightSum_nil]
      · rw [Option.map_eq_some_iff]
        constructor
        · rintro ⟨m, hm, rfl⟩
          obtain ⟨before, hfirst, rfl⟩ := ih.mp hm
          exact ⟨a :: before, (isFirst_cons h).mpr hfirst, by rw [weightSum_cons]⟩
        · rintro ⟨before, hfirst, rfl⟩
          cases before with
          | nil => exact absurd hfirst.occurs h
          | cons b before =>
              obtain ⟨rfl, -⟩ := cons_prefix_cons.mp hfirst.occurs
              exact ⟨weightSum width before, ih.mpr ⟨before, (isFirst_cons h).mp hfirst, rfl⟩,
                by rw [weightSum_cons]⟩

end

/-! ### Words that do not overlap themselves -/

/-- No proper end of the word is also its beginning. -/
def Unbordered (word : List α) : Prop :=
  ∀ border, border <+: word → border <:+ word → border = [] ∨ border = word

theorem unbordered_cons {a : α} {word : List α} (h : a ∉ word) : Unbordered (a :: word) := by
  intro border hstarts hends
  cases border with
  | nil => exact .inl rfl
  | cons b border =>
      obtain ⟨rfl, -⟩ := cons_prefix_cons.mp hstarts
      rcases suffix_cons_iff.mp hends with heq | hend
      · exact .inr heq
      · exact absurd (hend.subset mem_cons_self) h

/-- Behind a text without the word, the word that is put there is the first one. -/
theorem Unbordered.isFirst {noise : List α} (h : Unbordered word) (hnoise : ¬ word <:+: noise)
    (rest : List α) : IsFirst word noise (noise ++ word ++ rest) := by
  refine ⟨prefix_append _ _, fun other hother => ?_⟩
  by_contra hlt
  rw [Nat.not_le] at hlt
  have hbegins : noise <+: noise ++ word ++ rest := by
    rw [append_assoc]
    exact prefix_append _ _
  obtain ⟨overlap, rfl⟩ : other <+: noise :=
    prefix_of_prefix_length_le ((prefix_append _ _).trans hother) hbegins hlt.le
  have hword : word <+: overlap ++ (word ++ rest) := by
    simpa only [append_assoc, prefix_append_right_inj] using hother
  rcases le_total word.length overlap.length with hinside | hacross
  · have hstarts := prefix_of_prefix_length_le hword (prefix_append _ _) hinside
    exact hnoise (hstarts.isInfix.trans (suffix_append _ _).isInfix)
  · -- the word begins with the overlap and goes on as the word put there begins
    obtain ⟨border, rfl⟩ := prefix_of_prefix_length_le (prefix_append _ _) hword hacross
    have hborder : border <+: (overlap ++ border) ++ rest := (prefix_append_right_inj _).mp hword
    have hstarts : border <+: overlap ++ border :=
      prefix_of_prefix_length_le hborder (prefix_append _ _) (by simp)
    rcases h border hstarts (suffix_append _ _) with rfl | heq
    · exact hnoise (by simpa using (suffix_append other overlap).isInfix)
    · have hlength := congrArg length heq
      simp only [length_append] at hlength hlt
      omega

end List
