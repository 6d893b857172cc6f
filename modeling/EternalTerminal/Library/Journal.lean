import Mathlib.Data.List.Forall2

/-!
# The journal of a sequence of calls

Calls are made one after another, and each leaves items of its own in a log: none, one or several. A call
that succeeded has left at least one. So the log is one block for each call, in the order of the calls.
-/

variable {κ ι : Type*}

/-- The log is made of the blocks of these calls. The last call may have no result yet. -/
def Journal (own : κ → ι → Prop) (calls : List κ) (results : List Bool) (log : List ι) : Prop :=
  ∃ blocks : List (List ι), log = blocks.flatten
    ∧ List.Forall₂ (fun call block => ∀ item ∈ block, own call item) calls blocks
    ∧ ∀ (i : Nat) (block : List ι), blocks[i]? = some block → results[i]? = some true → block ≠ []

theorem List.Forall₂.concat_left {α β : Type*} {R : α → β → Prop} {xs : List α} {x : α} {zs : List β}
    (h : List.Forall₂ R (xs ++ [x]) zs) :
    ∃ ys y, zs = ys ++ [y] ∧ List.Forall₂ R xs ys ∧ R x y := by
  induction xs generalizing zs with
  | nil =>
      obtain ⟨y, rest, hy, hrest, rfl⟩ := List.forall₂_cons_left_iff.mp h
      obtain rfl := List.forall₂_nil_left_iff.mp hrest
      exact ⟨[], y, rfl, .nil, hy⟩
  | cons a xs ih =>
      obtain ⟨b, rest, hb, hrest, rfl⟩ := List.forall₂_cons_left_iff.mp h
      obtain ⟨ys, y, rfl, hys, hy⟩ := ih hrest
      exact ⟨b :: ys, y, rfl, .cons hb hys, hy⟩

namespace Journal

variable {own : κ → ι → Prop} {calls : List κ} {results : List Bool} {log : List ι}

theorem nil : Journal own [] [] [] := ⟨[], rfl, .nil, nofun⟩

theorem call (h : Journal own calls results log) (hreturned : results.length ≤ calls.length)
    (new : κ) : Journal own (calls ++ [new]) results log := by
  obtain ⟨blocks, rfl, hown, hkept⟩ := h
  refine ⟨blocks ++ [[]], by simp, List.rel_append hown (.cons (by simp) .nil),
    fun i block hblock htrue => ?_⟩
  have hlt := (List.getElem?_eq_some_iff.mp htrue).1
  have hlength := hown.length_eq
  rw [List.getElem?_append_left (by omega)] at hblock
  exact hkept i block hblock htrue

theorem add {earlier : List κ} {last : κ} (h : Journal own (earlier ++ [last]) results log)
    (hreturned : results.length = earlier.length) {items : List ι}
    (hitems : ∀ item ∈ items, own last item) {result : Option Bool}
    (hresult : result = some true → items ≠ []) :
    Journal own (earlier ++ [last]) (results ++ result.toList) (log ++ items) := by
  obtain ⟨_, rfl, hown, hkept⟩ := h
  obtain ⟨blocks, block, rfl, hblocks, hblock⟩ := hown.concat_left
  have hlength := hblocks.length_eq
  refine ⟨blocks ++ [block ++ items], by simp, List.rel_append hblocks (.cons ?_ .nil),
    fun i block' hblock' htrue => ?_⟩
  · intro item hmem
    exact (List.mem_append.mp hmem).elim (hblock item) (hitems item)
  · rcases Nat.lt_or_ge i blocks.length with hlt | hge
    · rw [List.getElem?_append_left hlt] at hblock'
      rw [List.getElem?_append_left (by omega)] at htrue
      exact hkept i block' (by rw [List.getElem?_append_left hlt]; exact hblock') htrue
    · -- the block of the call itself
      have hi : i = blocks.length := by
        have hlt := (List.getElem?_eq_some_iff.mp hblock').1
        rw [List.length_append, List.length_singleton] at hlt
        omega
      rw [hi, List.getElem?_concat_length] at hblock'
      rw [hi, List.getElem?_append_right (by omega), hreturned, ← hlength, Nat.sub_self] at htrue
      obtain rfl := Option.some.inj hblock'
      have htrue' : result = some true := by
        cases result with
        | none => exact absurd htrue nofun
        | some value => exact htrue
      exact fun hnil => hresult htrue' (List.append_eq_nil_iff.mp hnil).2

end Journal
