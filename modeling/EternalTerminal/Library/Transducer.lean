import Mathlib.Data.List.Basic
import Mathlib.Data.List.Induction
import Mathlib.Data.Option.Basic

/-!
# Runs of a machine that emits events

A transducer is a partial step function that also emits events. A property of a run is a property of
the state it reaches and of the events emitted so far, so history needs no ghost field in the state.
Two rules carry every run argument: `run_invariant`, and `always_iff_along`, which turns "the property
holds in every state of the run" into a condition on the single steps.
-/

/-- In a state, an action is either not enabled, or it leads to one state and emits some events. -/
abbrev Transducer (σ α ε : Type*) := σ → α → Option (σ × List ε)

namespace Transducer

variable {σ α ε : Type*} (m : Transducer σ α ε)

/-- The state a sequence of actions leads to and what it emitted; `none` if an action was not
enabled. -/
def run : σ → List α → Option (σ × List ε)
  | s, [] => some (s, [])
  | s, a :: rest =>
    match m s a with
    | none => none
    | some (t, out) =>
      match run t rest with
      | none => none
      | some (u, later) => some (u, out ++ later)

@[simp] theorem run_nil (s : σ) : m.run s [] = some (s, []) := rfl

theorem run_cons_eq_some {s : σ} {a : α} {rest : List α} {u : σ} {events : List ε} :
    m.run s (a :: rest) = some (u, events) ↔
      ∃ t out later, m s a = some (t, out) ∧ m.run t rest = some (u, later)
        ∧ events = out ++ later := by
  constructor
  · intro h
    simp only [run] at h
    split at h
    · simp at h
    · rename_i t out hstep
      split at h
      · simp at h
      · rename_i v later hrest
        simp only [Option.some.injEq, Prod.mk.injEq] at h
        obtain ⟨rfl, rfl⟩ := h
        exact ⟨t, out, later, hstep, hrest, rfl⟩
  · intro hgiven
    obtain ⟨t, out, later, hstep, hrest, rfl⟩ := hgiven
    simp only [run, hstep, hrest]

theorem run_append_eq_some {s : σ} {first second : List α} {u : σ} {events : List ε} :
    m.run s (first ++ second) = some (u, events) ↔
      ∃ t before after, m.run s first = some (t, before) ∧ m.run t second = some (u, after)
        ∧ events = before ++ after := by
  induction first generalizing s events with
  | nil => simp [run]
  | cons a rest ih =>
      simp only [List.cons_append, run_cons_eq_some, ih]
      constructor
      · intro hgiven
        obtain ⟨t, out, _, hstep, ⟨v, before, after, hfirst, hsecond, rfl⟩, rfl⟩ := hgiven
        exact ⟨v, out ++ before, after, ⟨t, out, before, hstep, hfirst, rfl⟩, hsecond,
          (List.append_assoc ..).symm⟩
      · intro hgiven
        obtain ⟨v, _, after, ⟨t, out, before, hstep, hfirst, rfl⟩, hsecond, rfl⟩ := hgiven
        exact ⟨t, out, before ++ after, hstep, ⟨v, before, after, hfirst, hsecond, rfl⟩,
          List.append_assoc ..⟩

theorem run_singleton {s : σ} {a : α} {t : σ} {out : List ε} :
    m.run s [a] = some (t, out) ↔ m s a = some (t, out) := by
  simp [run_cons_eq_some]

theorem run_concat_eq_some {s : σ} {first : List α} {a : α} {u : σ} {events : List ε} :
    m.run s (first ++ [a]) = some (u, events) ↔
      ∃ t before out, m.run s first = some (t, before) ∧ m t a = some (u, out)
        ∧ events = before ++ out := by
  simp only [run_append_eq_some, run_singleton]

/-- What one step keeps, a run keeps. -/
theorem run_invariant {I : σ → List ε → Prop}
    (step : ∀ {s before a t out}, I s before → m s a = some (t, out) → I t (before ++ out))
    {s : σ} (before : List ε) (init : I s before) {actions : List α} {t : σ} {events : List ε}
    (h : m.run s actions = some (t, events)) : I t (before ++ events) := by
  induction actions generalizing s before events with
  | nil =>
      simp only [run_nil, Option.some.injEq, Prod.mk.injEq] at h
      obtain ⟨rfl, rfl⟩ := h
      simpa using init
  | cons a rest ih =>
      obtain ⟨u, out, later, hstep, hrest, rfl⟩ := (m.run_cons_eq_some).mp h
      rw [← List.append_assoc]
      exact ih _ (step init hstep) hrest

theorem run_invariant_state {I : σ → Prop}
    (step : ∀ {s a t out}, I s → m s a = some (t, out) → I t)
    {s : σ} (init : I s) {actions : List α} {t : σ} {events : List ε}
    (h : m.run s actions = some (t, events)) : I t := by
  exact m.run_invariant (I := fun s _ => I s) (fun hs hstep => step hs hstep) [] init h

theorem run_invariant_actions {I : σ → List α → List ε → Prop}
    (step : ∀ {s done before a t out}, I s done before → m s a = some (t, out) →
      I t (done ++ [a]) (before ++ out))
    {s : σ} (done : List α) (before : List ε) (init : I s done before) {actions : List α} {t : σ}
    {events : List ε} (h : m.run s actions = some (t, events)) :
    I t (done ++ actions) (before ++ events) := by
  induction actions generalizing s done before events with
  | nil =>
      simp only [run_nil, Option.some.injEq, Prod.mk.injEq] at h
      obtain ⟨rfl, rfl⟩ := h
      simpa using init
  | cons a rest ih =>
      obtain ⟨u, out, later, hstep, hrest, rfl⟩ := (m.run_cons_eq_some).mp h
      have hlater := ih _ _ (step init hstep) hrest
      simpa using hlater

/-- If every step of `m` is matched by a run of `m'` between the images of its states, so is every run
of `m`. An event has an image or is not seen. -/
theorem run_simulates {σ' α' ε' : Type*} {m' : Transducer σ' α' ε'} {f : σ → σ'} {g : ε → Option ε'}
    (step : ∀ {s a t out}, m s a = some (t, out) →
      ∃ actions, m'.run (f s) actions = some (f t, out.filterMap g))
    {s : σ} {actions : List α} {t : σ} {events : List ε} (h : m.run s actions = some (t, events)) :
    ∃ actions', m'.run (f s) actions' = some (f t, events.filterMap g) := by
  induction actions generalizing s events with
  | nil =>
      simp only [run_nil, Option.some.injEq, Prod.mk.injEq] at h
      obtain ⟨rfl, rfl⟩ := h
      exact ⟨[], rfl⟩
  | cons a rest ih =>
      obtain ⟨u, out, later, hstep, hrest, rfl⟩ := (m.run_cons_eq_some).mp h
      obtain ⟨first, hfirst⟩ := step hstep
      obtain ⟨second, hsecond⟩ := ih hrest
      refine ⟨first ++ second, (m'.run_append_eq_some).mpr ?_⟩
      exact ⟨f u, _, _, hfirst, hsecond, List.filterMap_append⟩

/-- The same where the states of `m'` are only related to those of `m`: a forward simulation. -/
theorem run_forward {σ' α' ε' : Type*} {m' : Transducer σ' α' ε'} {R : σ → σ' → Prop}
    {g : ε → Option ε'}
    (step : ∀ {s s' a t out}, R s s' → m s a = some (t, out) →
      ∃ actions t', m'.run s' actions = some (t', out.filterMap g) ∧ R t t')
    {s : σ} {s' : σ'} (init : R s s') {actions : List α} {t : σ} {events : List ε}
    (h : m.run s actions = some (t, events)) :
    ∃ actions' t', m'.run s' actions' = some (t', events.filterMap g) ∧ R t t' := by
  induction actions generalizing s s' events with
  | nil =>
      simp only [run_nil, Option.some.injEq, Prod.mk.injEq] at h
      obtain ⟨rfl, rfl⟩ := h
      exact ⟨[], s', rfl, init⟩
  | cons a rest ih =>
      obtain ⟨u, out, later, hstep, hrest, rfl⟩ := (m.run_cons_eq_some).mp h
      obtain ⟨first, u', hfirst, hu⟩ := step init hstep
      obtain ⟨second, t', hsecond, ht⟩ := ih hu hrest
      refine ⟨first ++ second, t', (m'.run_append_eq_some).mpr ?_, ht⟩
      exact ⟨u', _, _, hfirst, hsecond, List.filterMap_append⟩

/-- `P` holds of the state and the events so far after every prefix of the run. -/
def Always (P : σ → List ε → Prop) (s : σ) (actions : List α) : Prop :=
  ∀ first, first <+: actions → ∀ t events, m.run s first = some (t, events) → P t events

/-- Every step the run takes meets `C` in the state it is taken in. -/
def Along (C : σ → α → Prop) (s : σ) (actions : List α) : Prop :=
  ∀ first a, first ++ [a] <+: actions → ∀ t events u out, m.run s first = some (t, events) →
    m t a = some (u, out) → C t a

theorem along_nil (C : σ → α → Prop) (s : σ) : m.Along C s [] := by
  intro first a hpre
  simp at hpre

theorem along_cons {C : σ → α → Prop} {s : σ} {a : α} {rest : List α} {t : σ} {out : List ε}
    (hstep : m s a = some (t, out)) :
    m.Along C s (a :: rest) ↔ C s a ∧ m.Along C t rest := by
  constructor
  · intro h
    refine ⟨h [] a (by simp) s [] t out rfl hstep, ?_⟩
    intro first b hpre u events v more hrun hnext
    refine h (a :: first) b (by simpa using hpre) u (out ++ events) v more ?_ hnext
    exact (m.run_cons_eq_some).mpr ⟨t, out, events, hstep, hrun, rfl⟩
  · rintro ⟨hhead, htail⟩ first b hpre u events v more hrun hnext
    cases first with
    | nil =>
        simp only [List.nil_append, List.cons_prefix_cons, List.nil_prefix, and_true] at hpre
        simp only [run_nil, Option.some.injEq, Prod.mk.injEq] at hrun
        obtain ⟨rfl, -⟩ := hrun
        exact hpre ▸ hhead
    | cons c first =>
        simp only [List.cons_append, List.cons_prefix_cons] at hpre
        obtain ⟨rfl, hpre⟩ := hpre
        obtain ⟨w, out', later, hstep', hrest, -⟩ := (m.run_cons_eq_some).mp hrun
        rw [hstep] at hstep'
        simp only [Option.some.injEq, Prod.mk.injEq] at hstep'
        obtain ⟨rfl, rfl⟩ := hstep'
        exact htail first b hpre u later v more hrest hnext

theorem along_of_stuck {C : σ → α → Prop} {s : σ} {a : α} {rest : List α} (hstuck : m s a = none) :
    m.Along C s (a :: rest) := by
  intro first b hpre t events u out hrun hstep
  cases first with
  | nil =>
      simp only [List.nil_append, List.cons_prefix_cons, List.nil_prefix, and_true] at hpre
      simp only [run_nil, Option.some.injEq, Prod.mk.injEq] at hrun
      obtain ⟨rfl, -⟩ := hrun
      rw [hpre, hstuck] at hstep
      cases hstep
  | cons c first =>
      simp only [List.cons_append, List.cons_prefix_cons] at hpre
      obtain ⟨v, out', later, hfirst, -, -⟩ := (m.run_cons_eq_some).mp hrun
      rw [hpre.1, hstuck] at hfirst
      cases hfirst

instance decidableAlong {C : σ → α → Prop} [∀ s a, Decidable (C s a)] :
    ∀ (s : σ) (actions : List α), Decidable (m.Along C s actions)
  | s, [] => .isTrue (m.along_nil C s)
  | s, a :: rest =>
    match hstep : m s a with
    | none => .isTrue (m.along_of_stuck hstep)
    | some (t, _) =>
      let _ := decidableAlong (C := C) t rest
      decidable_of_iff (C s a ∧ m.Along C t rest) (m.along_cons hstep).symm

theorem along_append {C : σ → α → Prop} {s : σ} {first second : List α} {t : σ} {events : List ε}
    (hrun : m.run s first = some (t, events)) :
    m.Along C s (first ++ second) ↔ m.Along C s first ∧ m.Along C t second := by
  induction first generalizing s events with
  | nil =>
      simp only [run_nil, Option.some.injEq, Prod.mk.injEq] at hrun
      obtain ⟨rfl, -⟩ := hrun
      exact ⟨fun h => ⟨m.along_nil C s, h⟩, fun h => h.2⟩
  | cons a rest ih =>
      obtain ⟨u, out, later, hstep, hrest, -⟩ := (m.run_cons_eq_some).mp hrun
      rw [List.cons_append, m.along_cons hstep, m.along_cons hstep, ih hrest, and_assoc]

/-- What the steps that meet `C` keep, a run of such steps keeps. -/
theorem run_invariant_along {I : σ → List ε → Prop} {C : σ → α → Prop}
    (step : ∀ {s before a t out}, I s before → C s a → m s a = some (t, out) → I t (before ++ out))
    {s : σ} (before : List ε) (init : I s before) {actions : List α} {t : σ} {events : List ε}
    (halong : m.Along C s actions) (h : m.run s actions = some (t, events)) :
    I t (before ++ events) := by
  induction actions generalizing s before events with
  | nil =>
      simp only [run_nil, Option.some.injEq, Prod.mk.injEq] at h
      obtain ⟨rfl, rfl⟩ := h
      simpa using init
  | cons a rest ih =>
      obtain ⟨u, out, later, hstep, hrest, rfl⟩ := (m.run_cons_eq_some).mp h
      obtain ⟨hhead, htail⟩ := (m.along_cons hstep).mp halong
      rw [← List.append_assoc]
      exact ih _ (step init hhead hstep) htail hrest

theorem always_of_steps {J : σ → List ε → Prop} {s : σ} {actions : List α} (init : J s [])
    (keep : ∀ first a, first ++ [a] <+: actions → ∀ t before u out,
      m.run s first = some (t, before) → m t a = some (u, out) → J t before → J u (before ++ out)) :
    m.Always J s actions := by
  intro first
  induction first using List.reverseRecOn with
  | nil =>
      intro _ t events hrun
      simp only [run_nil, Option.some.injEq, Prod.mk.injEq] at hrun
      obtain ⟨rfl, rfl⟩ := hrun
      exact init
  | append_singleton first a ih =>
      intro hpre u events hrun
      obtain ⟨t, before, out, hfirst, hstep, rfl⟩ := (m.run_concat_eq_some).mp hrun
      have hJ := ih ((List.prefix_append first [a]).trans hpre) t before hfirst
      exact keep first a hpre t before u out hfirst hstep hJ

theorem always_of_along {J : σ → List ε → Prop} {C : σ → α → Prop}
    (keep : ∀ {s before a t out}, J s before → C s a → m s a = some (t, out) → J t (before ++ out))
    {s : σ} (init : J s []) {actions : List α} (halong : m.Along C s actions) :
    m.Always J s actions := by
  apply m.always_of_steps init
  intro first a hpre t before u out hrun hstep hJ
  exact keep hJ (halong first a hpre t before u out hrun hstep) hstep

theorem along_congr {C D : σ → α → Prop} {s : σ} {actions : List α}
    (h : m.Always (fun t _ => ∀ a, C t a ↔ D t a) s actions) :
    m.Along C s actions ↔ m.Along D s actions := by
  constructor
  · intro halong first a hpre t events u out hrun hstep
    have hagree := h first ((List.prefix_append first [a]).trans hpre) t events hrun a
    exact hagree.mp (halong first a hpre t events u out hrun hstep)
  · intro halong first a hpre t events u out hrun hstep
    have hagree := h first ((List.prefix_append first [a]).trans hpre) t events hrun a
    exact hagree.mpr (halong first a hpre t events u out hrun hstep)

/-- `J` is an invariant that a step keeps when it meets `C`. If a step that fails `C` breaks `P` at
once, then the runs on which `P` always holds are exactly those whose steps all meet `C`. -/
theorem always_iff_along {J P : σ → List ε → Prop} {C : σ → α → Prop}
    (keep : ∀ {s before a t out}, J s before → C s a → m s a = some (t, out) → J t (before ++ out))
    (imp : ∀ {s before}, J s before → P s before)
    (fails : ∀ {s before a t out}, J s before → ¬ C s a → m s a = some (t, out) →
      ¬ P t (before ++ out))
    {s : σ} (init : J s []) (actions : List α) :
    m.Always P s actions ↔ m.Along C s actions := by
  constructor
  · intro halways
    -- a step that fails `C` would break `P` at once
    have hinv : m.Always J s actions := by
      apply m.always_of_steps init
      intro first a hpre t before u out hrun hstep hJ
      have hP := halways _ hpre u (before ++ out)
        ((m.run_concat_eq_some).mpr ⟨t, before, out, hrun, hstep, rfl⟩)
      by_cases hC : C t a
      · exact keep hJ hC hstep
      · exact absurd hP (fails hJ hC hstep)
    intro first a hpre t events u out hrun hstep
    have hJ := hinv first ((List.prefix_append first [a]).trans hpre) t events hrun
    by_contra hC
    refine fails hJ hC hstep (halways _ hpre u (events ++ out) ?_)
    exact (m.run_concat_eq_some).mpr ⟨t, events, out, hrun, hstep, rfl⟩
  · intro halong first hpre t events hrun
    exact imp (m.always_of_along keep init halong first hpre t events hrun)

end Transducer
