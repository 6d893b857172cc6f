import EternalTerminal.Library.Transducer

/-!
# How long a run goes on

An amortized bound on the length of a run: each step takes one unit out of a potential, and an event
may put some back. Together with the fact that something is enabled, it says that a part of a run ends.
-/

namespace Transducer

variable {σ α ε : Type*} (m : Transducer σ α ε)

/-- Some action is enabled. -/
def Enabled (s : σ) : Prop := ∃ a t out, m s a = some (t, out)

variable {m} in
theorem enabled_of_isSome {s : σ} (a : α) (h : (m s a).isSome) : m.Enabled s := by
  obtain ⟨⟨t, out⟩, hstep⟩ := Option.isSome_iff_exists.mp h
  exact ⟨a, t, out, hstep⟩

/-- What these events put back. -/
def refunds (refund : ε → Nat) (events : List ε) : Nat :=
  events.foldr (fun event sum => refund event + sum) 0

@[simp] theorem refunds_nil (refund : ε → Nat) : refunds refund [] = 0 := rfl

@[simp] theorem refunds_append (refund : ε → Nat) (before after : List ε) :
    refunds refund (before ++ after) = refunds refund before + refunds refund after := by
  induction before with
  | nil => simp
  | cons event before ih =>
      change refund event + refunds refund (before ++ after) = refund event + refunds refund before + _
      rw [ih, Nat.add_assoc]

theorem refunds_map {ι : Type*} (refund : ε → Nat) (f : ι → ε) (events : List ι) :
    refunds refund (events.map f) = refunds (refund ∘ f) events :=
  List.foldr_map

theorem refunds_zero (events : List ε) : refunds (fun _ => 0) events = 0 := by
  induction events with
  | nil => rfl
  | cons event events ih => exact (Nat.zero_add _).trans ih

theorem refunds_ite (p : ε → Bool) (n : Nat) (events : List ε) :
    refunds (fun event => if p event then n else 0) events = n * events.countP p := by
  induction events with
  | nil => rfl
  | cons event events ih =>
      rw [← List.singleton_append, refunds_append, ih, List.countP_append, Nat.mul_add]
      cases hp : p event <;> simp [refunds, hp]

/-- As long as the steps meet `C`, each of them takes one unit out of the potential. -/
theorem length_le_of_potential (refund : ε → Nat) {I : σ → Prop} {C : σ → α → Prop}
    {potential : σ → Nat}
    (step : ∀ {s a t out}, I s → C s a → m s a = some (t, out) →
      I t ∧ potential t + 1 ≤ potential s + refunds refund out)
    {s : σ} (init : I s) {actions : List α} {t : σ} {events : List ε}
    (halong : m.Along C s actions) (hrun : m.run s actions = some (t, events)) :
    I t ∧ actions.length + potential t ≤ potential s + refunds refund events := by
  induction actions generalizing s events with
  | nil =>
      simp only [run_nil, Option.some.injEq, Prod.mk.injEq] at hrun
      obtain ⟨rfl, rfl⟩ := hrun
      exact ⟨init, by simp⟩
  | cons a rest ih =>
      obtain ⟨u, out, later, hstep, hrest, rfl⟩ := (m.run_cons_eq_some).mp hrun
      obtain ⟨hhead, htail⟩ := (m.along_cons hstep).mp halong
      obtain ⟨hu, hpaid⟩ := step init hhead hstep
      obtain ⟨ht, hlength⟩ := ih hu htail hrest
      refine ⟨ht, ?_⟩
      rw [refunds_append, List.length_cons]
      omega

end Transducer
