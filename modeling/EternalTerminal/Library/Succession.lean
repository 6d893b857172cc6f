import EternalTerminal.Library.Transducer

/-!
# Links used one after another

A party talks to another over one link at a time. It opens a link only after it has given up the one
before, greets the other side on it, and only then uses it. So whatever a link carries is in the order of
the links, and on each link the greeting comes first and comes once. The first link is there from the
start and needs no greeting.
-/

/-- `γ` is what a greeting says and `υ` what a use says. -/
inductive Sign (γ υ : Type*) where
  | greeted (link : Nat) (greeting : γ)
  | used (link : Nat) (use : υ)

namespace Sign

variable {γ υ : Type*}

def link : Sign γ υ → Nat
  | .greeted link _ => link
  | .used link _ => link

def Greeting : Sign γ υ → Prop
  | .greeted _ _ => True
  | .used _ _ => False

/-- What may follow on the wire: nothing goes back to an older link, and a greeting opens its link. -/
def Before (earlier later : Sign γ υ) : Prop :=
  earlier.link ≤ later.link ∧ (later.Greeting → earlier.link < later.link)

/-- The links are used in order, each greeted before it is used and once. -/
structure InOrder (signs : List (Sign γ υ)) : Prop where
  ordered : signs.Pairwise Before
  greeted : ∀ sign ∈ signs, sign.link = 0 ∨ ∃ greeting, .greeted sign.link greeting ∈ signs

end Sign

structure Succession where
  /-- How many links there have been; they are numbered from 0. -/
  opened : Nat
  /-- The link that is being set up, and whether it was greeted. -/
  pending : Option (Nat × Bool)
  current : Option Nat

namespace Succession

variable {γ υ : Type*}

inductive Move (γ υ : Type*) where
  | openLink
  | greet (greeting : γ)
  | adopt
  | use (use : υ)
  | leave
  | abandon

/-- On the first link. -/
def first : Succession := { opened := 1, pending := none, current := some 0 }

def machine : Transducer Succession (Move γ υ) (Sign γ υ)
  | s, .openLink =>
    if s.current = none ∧ s.pending = none then
      some ({ s with opened := s.opened + 1, pending := some (s.opened, false) }, [])
    else none
  | s, .greet greeting =>
    match s.pending with
    | some (link, false) => some ({ s with pending := some (link, true) }, [.greeted link greeting])
    | _ => none
  | s, .adopt =>
    match s.pending, s.current with
    | some (link, true), none => some ({ s with pending := none, current := some link }, [])
    | _, _ => none
  | s, .use use =>
    match s.current with
    | some link => some (s, [.used link use])
    | none => none
  | s, .leave => some ({ s with current := none }, [])
  | s, .abandon => some ({ s with pending := none }, [])

/-- A link that is set up or used is the newest one, and what went out before is on older links or, after
its greeting, on it. -/
structure Sound (s : Succession) (signs : List (Sign γ υ)) : Prop where
  order : Sign.InOrder signs
  older : ∀ sign ∈ signs, sign.link < s.opened
  current : ∀ link, s.current = some link → link + 1 = s.opened
    ∧ (link = 0 ∨ ∃ greeting, .greeted link greeting ∈ signs)
  fresh : ∀ link, s.pending = some (link, false) → link + 1 = s.opened
    ∧ ∀ sign ∈ signs, sign.link < link
  ready : ∀ link, s.pending = some (link, true) → link + 1 = s.opened
    ∧ ∃ greeting, .greeted link greeting ∈ signs
  alone : s.current = none ∨ s.pending = none

theorem first_sound : first.Sound ([] : List (Sign γ υ)) := by
  refine ⟨⟨.nil, nofun⟩, nofun, fun link hlink => ?_, nofun, nofun, .inr rfl⟩
  obtain rfl := Option.some.inj hlink
  exact ⟨rfl, .inl rfl⟩

variable {s t : Succession} {signs : List (Sign γ υ)}

theorem Sound.give_up (h : s.Sound signs) (hopened : t.opened = s.opened)
    (hcurrent : t.current = s.current ∨ t.current = none)
    (hpending : t.pending = s.pending ∨ t.pending = none) : t.Sound signs := by
  refine ⟨h.order, hopened ▸ h.older, fun link hlink => ?_, fun link hlink => ?_, fun link hlink => ?_,
    ?_⟩
  · rw [hopened]
    rcases hcurrent with hsame | hnone
    · exact h.current link (hsame ▸ hlink)
    · exact absurd (hnone.symm.trans hlink) nofun
  · rw [hopened]
    rcases hpending with hsame | hnone
    · exact h.fresh link (hsame ▸ hlink)
    · exact absurd (hnone.symm.trans hlink) nofun
  · rw [hopened]
    rcases hpending with hsame | hnone
    · exact h.ready link (hsame ▸ hlink)
    · exact absurd (hnone.symm.trans hlink) nofun
  · rcases h.alone with hnone | hnone
    · exact .inl (hcurrent.elim (fun hsame => hsame.trans hnone) id)
    · exact .inr (hpending.elim (fun hsame => hsame.trans hnone) id)

theorem Sound.order_concat (h : s.Sound signs) {sign : Sign γ υ}
    (hbefore : ∀ earlier ∈ signs, earlier.Before sign)
    (hgreeted : sign.link = 0 ∨ ∃ greeting, .greeted sign.link greeting ∈ signs ++ [sign]) :
    Sign.InOrder (signs ++ [sign]) := by
  refine ⟨?_, fun earlier hmem => ?_⟩
  · rw [List.pairwise_append]
    refine ⟨h.order.ordered, List.pairwise_singleton _ _, fun earlier hmem later hlater => ?_⟩
    obtain rfl := List.mem_singleton.mp hlater
    exact hbefore earlier hmem
  · rcases List.mem_append.mp hmem with hold | hnew
    · rcases h.order.greeted earlier hold with hzero | ⟨greeting, hgreeting⟩
      · exact .inl hzero
      · exact .inr ⟨greeting, List.mem_append_left _ hgreeting⟩
    · obtain rfl := List.mem_singleton.mp hnew
      exact hgreeted

theorem Sound.greet (h : s.Sound signs) {link : Nat} (hpending : s.pending = some (link, false))
    (greeting : γ) : Sound { s with pending := some (link, true) } (signs ++ [.greeted link greeting]) := by
  obtain ⟨hnewest, hold⟩ := h.fresh link hpending
  have hmem : Sign.greeted link greeting ∈ signs ++ [.greeted link greeting] := by simp
  refine ⟨h.order_concat (fun earlier hearlier => ?_) (.inr ⟨greeting, hmem⟩), fun sign hsign => ?_,
    fun link' hlink => ?_, nofun, fun link' hlink => ?_, ?_⟩
  · exact ⟨Nat.le_of_lt (hold earlier hearlier), fun _ => hold earlier hearlier⟩
  · rcases List.mem_append.mp hsign with hearlier | hnew
    · exact h.older sign hearlier
    · obtain rfl := List.mem_singleton.mp hnew
      exact hnewest ▸ Nat.lt_succ_self link
  · obtain ⟨hcurrent, hgreeted⟩ := h.current link' hlink
    refine ⟨hcurrent, hgreeted.imp_right fun hsome => ?_⟩
    obtain ⟨greeting', hgreeting⟩ := hsome
    exact ⟨greeting', List.mem_append_left _ hgreeting⟩
  · obtain rfl : link = link' := by simpa using hlink
    exact ⟨hnewest, greeting, hmem⟩
  · exact .inl (h.alone.resolve_right (by simp [hpending]))

theorem Sound.use (h : s.Sound signs) {link : Nat} (hcurrent : s.current = some link) (use : υ) :
    s.Sound (signs ++ [.used link use]) := by
  have hpending : s.pending = none := h.alone.resolve_left (by simp [hcurrent])
  obtain ⟨hnewest, hgreeted⟩ := h.current link hcurrent
  have hkeep : ∀ greeting, Sign.greeted link greeting ∈ signs →
      Sign.greeted link greeting ∈ signs ++ [.used link use] :=
    fun greeting hgreeting => List.mem_append_left _ hgreeting
  refine ⟨h.order_concat (fun earlier hearlier => ?_) ?_, fun sign hsign => ?_, fun link' hlink => ?_,
    fun link' hlink => absurd (hpending.symm.trans hlink) nofun,
    fun link' hlink => absurd (hpending.symm.trans hlink) nofun, .inr hpending⟩
  · have hlt := h.older earlier hearlier
    exact ⟨by simp only [Sign.link] at *; omega, fun hgreeting => absurd hgreeting id⟩
  · exact hgreeted.imp_right fun ⟨greeting, hgreeting⟩ => ⟨greeting, hkeep greeting hgreeting⟩
  · rcases List.mem_append.mp hsign with hearlier | hnew
    · exact h.older sign hearlier
    · obtain rfl := List.mem_singleton.mp hnew
      exact hnewest ▸ Nat.lt_succ_self link
  · obtain rfl := Option.some.inj (hcurrent.symm.trans hlink)
    exact ⟨hnewest, hgreeted.imp_right fun ⟨greeting, hgreeting⟩ => ⟨greeting, hkeep greeting hgreeting⟩⟩

theorem machine_sound {move : Move γ υ} {out : List (Sign γ υ)} (h : s.Sound signs)
    (hstep : machine s move = some (t, out)) : t.Sound (signs ++ out) := by
  cases move with
  | openLink =>
      simp only [machine] at hstep
      split_ifs at hstep with hfree
      obtain ⟨rfl, rfl⟩ := Prod.mk.inj (Option.some.inj hstep)
      rw [List.append_nil]
      refine ⟨h.order, fun sign hsign => Nat.lt_succ_of_lt (h.older sign hsign), fun link hlink => ?_,
        fun link hlink => ?_, nofun, .inl hfree.1⟩
      · exact absurd (hfree.1.symm.trans hlink) nofun
      · obtain rfl : s.opened = link := by simpa using hlink
        exact ⟨rfl, h.older⟩
  | greet greeting =>
      simp only [machine] at hstep
      split at hstep
      · next link hpending =>
          obtain ⟨rfl, rfl⟩ := Prod.mk.inj (Option.some.inj hstep)
          exact h.greet hpending greeting
      · exact absurd hstep nofun
  | adopt =>
      simp only [machine] at hstep
      split at hstep
      · next link hpending hcurrent =>
          obtain ⟨rfl, rfl⟩ := Prod.mk.inj (Option.some.inj hstep)
          rw [List.append_nil]
          obtain ⟨hnewest, hgreeted⟩ := h.ready link hpending
          refine ⟨h.order, h.older, fun link' hlink => ?_, nofun, nofun, .inr rfl⟩
          obtain rfl := Option.some.inj hlink
          exact ⟨hnewest, .inr hgreeted⟩
      · exact absurd hstep nofun
  | use use =>
      simp only [machine] at hstep
      split at hstep
      · next link hcurrent =>
          obtain ⟨rfl, rfl⟩ := Prod.mk.inj (Option.some.inj hstep)
          exact h.use hcurrent use
      · exact absurd hstep nofun
  | leave =>
      obtain ⟨rfl, rfl⟩ := Prod.mk.inj (Option.some.inj hstep)
      rw [List.append_nil]
      exact h.give_up rfl (.inr rfl) (.inl rfl)
  | abandon =>
      obtain ⟨rfl, rfl⟩ := Prod.mk.inj (Option.some.inj hstep)
      rw [List.append_nil]
      exact h.give_up rfl (.inl rfl) (.inr rfl)

/-- Whatever the party does, its links carry everything in order. -/
theorem run_sound {moves : List (Move γ υ)} {out : List (Sign γ υ)}
    (hrun : machine.run first moves = some (t, out)) : t.Sound out :=
  machine.run_invariant (I := Sound) machine_sound [] first_sound hrun

end Succession
