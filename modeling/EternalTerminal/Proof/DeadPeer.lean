import EternalTerminal.Proof.Keepalive

/-!
# How soon a dead peer is noticed

The converse of the keepalive: while nothing comes from the peer and nothing from the user, the deadline
is reached at most twice before a reconnect is forced, and each time a round of the loop later at most.
Input puts the deadline off, so while the user types the peer may be dead for any time.
-/

namespace EternalTerminal

/-- Nothing comes from the peer or the user, the socket is there, and the clock is read again within
`gap`. -/
def Silent (gap : Duration) (s : RunSession) : RunAnswer → Prop
  | .now t => t ≤ s.clock + gap
  | .read packet => packet = none
  | .input (.ok bytes) => bytes = none
  | .hasSocket value => s.pc = .checkingSocket → value = true
  | _ => True

instance (gap : Duration) (s : RunSession) : ∀ answer, Decidable (Silent gap s answer)
  | .now t => inferInstanceAs (Decidable (t ≤ s.clock + gap))
  | .read packet => inferInstanceAs (Decidable (packet = none))
  | .input (.ok bytes) => inferInstanceAs (Decidable (bytes = none))
  | .input (.error _) => .isTrue trivial
  | .hasSocket value => inferInstanceAs (Decidable (s.pc = .checkingSocket → value = true))
  | .wrote _ => .isTrue trivial
  | .closed => .isTrue trivial
  | .shuttingDown _ => .isTrue trivial
  | .shutdown _ => .isTrue trivial
  | .opened _ => .isTrue trivial
  | .shown _ => .isTrue trivial
  | .size _ => .isTrue trivial

/-- The latest that the deadline can be when the silence began at `first`: it has been reached once if
the loop waits for an answer. -/
def latest (first gap period : Nat) (waiting : Bool) : Nat :=
  if waiting then first + 2 * period + 2 * gap else first + period

theorem latest_le (first gap period : Nat) (waiting : Bool) :
    latest first gap period waiting ≤ first + 2 * period + 2 * gap := by
  unfold latest
  split_ifs <;> omega

/-- Where the clock and the deadline can be, at a place of a silent main loop. -/
def Within (first gap period clock deadline : Nat) (waiting : Bool) : RunPc → Prop
  | .sendingPayload => False
  | .startingWait => False
  | .waiting _ => False
  | .awaitingResponse _ => False
  | .openingConsole => False
  | .sendingCommand _ => False
  | .arming => False
  | .rearmingOutput _ => False
  | .sendingInput _ => False
  | .rearmingInput => False
  | .rearmingKeepalive => clock ≤ latest first gap period waiting + gap
  | .forcing => clock ≤ first + 2 * period + 4 * gap
  | .sendingKeepalive => clock ≤ first + period + 2 * gap ∧ deadline ≤ first + 2 * period + 2 * gap
  | _ => clock ≤ latest first gap period waiting ∧ deadline ≤ latest first gap period waiting

/-- Whatever the place, the clock is within two periods and four rounds. -/
theorem Within.clock_le {first gap period clock deadline : Nat} {waiting : Bool} {pc : RunPc}
    (h : Within first gap period clock deadline waiting pc) :
    clock ≤ first + 2 * period + 4 * gap := by
  have hlatest := latest_le first gap period waiting
  cases pc <;> simp only [Within] at h <;> omega

section Arithmetic

variable {first gap period clock deadline t : Nat}

theorem le_of_second (h : clock ≤ latest first gap period true + gap) (ht : t ≤ clock + gap) :
    t ≤ first + 2 * period + 4 * gap := by
  simp only [latest, if_true] at h
  omega

theorem le_of_first (h : clock ≤ latest first gap period false + gap) (ht : t ≤ clock + gap) :
    t ≤ first + period + 2 * gap ∧ t + period ≤ first + 2 * period + 2 * gap := by
  simp only [latest, Bool.false_eq_true, if_false] at h
  omega

theorem le_latest (h : clock ≤ first + period + 2 * gap ∧ deadline ≤ first + 2 * period + 2 * gap) :
    clock ≤ latest first gap period true ∧ deadline ≤ latest first gap period true := by
  simp only [latest, if_true]
  omega

theorem le_latest_self (h : deadline ≤ clock + period) (gap : Nat) (waiting : Bool) :
    clock ≤ latest clock gap period waiting ∧ deadline ≤ latest clock gap period waiting := by
  unfold latest
  split_ifs <;> omega

end Arithmetic

namespace RunSession

/-- A silent main loop that has forced no reconnect. -/
def Watched (first : Instant) (gap : Duration) (s : RunSession) : Prop :=
  Within first gap s.opts.keepaliveDuration s.clock s.keepaliveDeadline s.waitingOnKeepalive s.pc

variable {memory : Memory} {first : Instant} {gap : Duration} {s next : RunSession}
  {answer : RunAnswer} {events : List RunEvent}

theorem watched_onLocal {clock deadline : Nat} {waiting : Bool} (opts : ClientOptions)
    {period : Nat} (h : clock ≤ latest first gap period waiting
      ∧ deadline ≤ latest first gap period waiting) :
    Within first gap period clock deadline waiting opts.onLocal := by
  unfold ClientOptions.onLocal
  split_ifs <;> exact h

theorem watched_onDrained {clock deadline : Nat} {waiting : Bool} (opts : ClientOptions)
    (coalesced : Bytes) {period : Nat} (h : clock ≤ latest first gap period waiting
      ∧ deadline ≤ latest first gap period waiting) :
    Within first gap period clock deadline waiting (opts.onDrained coalesced) := by
  unfold ClientOptions.onDrained
  split_ifs <;> exact h

/-- A step of silence, unless it forces a reconnect. -/
theorem watched_step (h : s.Watched first gap) (hsilent : Silent gap s answer)
    (hstep : runMachine memory s answer = some (next, events)) :
    .forced ∈ events ∨ next.Watched first gap := by
  unfold runMachine at hstep
  unfold Watched at h ⊢
  cases hpc : s.pc with
  | loopHead =>
      rw [hpc] at h hstep
      rcases answer with _ | _ | _ | _ | ⟨_ | _⟩ | _ | _ | _ | _ | _ | _ <;>
        simp only [runStep, Option.some.injEq, Prod.mk.injEq, reduceCtorEq] at hstep <;>
        obtain ⟨rfl, rfl⟩ := hstep
      · exact .inr h
      · exact .inr h
  | checkingFlag =>
      rw [hpc] at h hstep
      cases answer <;> simp only [runStep, Option.some.injEq, Prod.mk.injEq, reduceCtorEq] at hstep
      obtain ⟨rfl, rfl⟩ := hstep
      refine .inr ?_
      dsimp only
      split_ifs <;> exact h
  | checkingSocket =>
      rw [hpc] at h hstep
      rcases answer with _ | _ | _ | _ | _ | _ | ⟨_ | _⟩ | _ | _ | _ | _ <;>
        simp only [runStep, Option.some.injEq, Prod.mk.injEq, reduceCtorEq] at hstep <;>
        obtain ⟨rfl, rfl⟩ := hstep
      · exact absurd (hsilent hpc) (by simp)
      · exact .inr h
  | draining coalesced =>
      rw [hpc] at h hstep
      rcases answer with _ | _ | ⟨_ | packet⟩ | _ | _ | _ | _ | _ | _ | _ | _ <;>
        simp only [runStep, Option.some.injEq, Prod.mk.injEq, reduceCtorEq] at hstep <;>
        obtain ⟨rfl, rfl⟩ := hstep
      · exact .inr (watched_onDrained s.opts coalesced h)
      · exact absurd hsilent (by simp [Silent])
  | showing coalesced =>
      rw [hpc] at h hstep
      rcases answer with _ | _ | _ | _ | _ | _ | _ | _ | ⟨e | _⟩ | _ | _ <;>
        simp only [runStep, Option.some.injEq, Prod.mk.injEq, reduceCtorEq] at hstep <;>
        obtain ⟨rfl, rfl⟩ := hstep
      · exact .inr h
      · exact .inr h
  | checkingDeadline =>
      rw [hpc] at h hstep
      cases answer <;> simp only [runStep, reduceCtorEq] at hstep
      rename_i t
      have hprompt : t ≤ s.clock + gap := hsilent
      obtain ⟨-, rfl, rfl⟩ := tick_eq_some hstep
      refine .inr ?_
      dsimp only
      split_ifs with hdue
      · exact hprompt.trans (Nat.add_le_add_right h.1 gap)
      · exact watched_onLocal s.opts ⟨(not_le.mp hdue).le.trans h.2, h.2⟩
  | rearmingKeepalive =>
      rw [hpc] at h hstep
      cases answer <;> simp only [runStep, reduceCtorEq] at hstep
      rename_i t
      have hprompt : t ≤ s.clock + gap := hsilent
      obtain ⟨-, rfl, rfl⟩ := tick_eq_some hstep
      refine .inr ?_
      cases hwaiting : s.waitingOnKeepalive with
      | true =>
          rw [hwaiting] at h
          exact le_of_second h hprompt
      | false =>
          rw [hwaiting] at h
          exact le_of_first h hprompt
  | forcing =>
      rw [hpc] at hstep
      cases answer <;> simp only [runStep, Option.some.injEq, Prod.mk.injEq, reduceCtorEq] at hstep
      obtain ⟨rfl, rfl⟩ := hstep
      exact .inl (by simp)
  | sendingKeepalive =>
      rw [hpc] at h hstep
      cases answer <;> simp only [runStep, Option.some.injEq, Prod.mk.injEq, reduceCtorEq] at hstep
      obtain ⟨rfl, rfl⟩ := hstep
      exact .inr (watched_onLocal s.opts (le_latest h))
  | polling =>
      rw [hpc] at h hstep
      rcases answer with _ | _ | _ | _ | _ | _ | _ | _ | _ | ⟨e | _ | bytes⟩ | _ <;>
        simp only [runStep, Option.some.injEq, Prod.mk.injEq, reduceCtorEq] at hstep <;>
        obtain ⟨rfl, rfl⟩ := hstep
      · exact .inr h
      · exact .inr h
      · exact absurd hsilent (by simp [Silent])
  | sizing =>
      rw [hpc] at h hstep
      cases answer <;> simp only [runStep, reduceCtorEq] at hstep
      split_ifs at hstep <;> obtain ⟨rfl, rfl⟩ := Prod.mk.inj (Option.some.inj hstep)
      · exact .inr h
      · exact .inr h
  | sendingInfo ti =>
      rw [hpc] at h hstep
      cases answer <;> simp only [runStep, Option.some.injEq, Prod.mk.injEq, reduceCtorEq] at hstep
      obtain ⟨rfl, rfl⟩ := hstep
      exact .inr h
  | pausing =>
      rw [hpc] at h hstep
      cases answer <;> simp only [runStep, Option.some.injEq, Prod.mk.injEq, reduceCtorEq] at hstep
      obtain ⟨rfl, rfl⟩ := hstep
      exact .inr h
  | returned result =>
      rw [hpc] at hstep
      simp [runStep] at hstep
  | crashed =>
      rw [hpc] at hstep
      simp [runStep] at hstep
  | _ =>
      rw [hpc] at h
      exact absurd h id

theorem forced_or_watched {before : List RunEvent}
    (h : .forced ∈ before ∨ s.Watched first gap) (hsilent : Silent gap s answer)
    (hstep : runMachine memory s answer = some (next, events)) :
    .forced ∈ before ++ events ∨ next.Watched first gap := by
  rcases h with hforced | hwatched
  · exact .inl (List.mem_append_left events hforced)
  · exact (watched_step hwatched hsilent hstep).imp_left (List.mem_append_right before)

theorem Punctual.watched {before : List RunEvent} (h : Punctual s before) (hpc : s.pc = .loopHead)
    (gap : Duration) : s.Watched s.clock gap := by
  unfold Watched
  rw [hpc]
  exact le_latest_self h.capped gap s.waitingOnKeepalive

end RunSession

/-- **A dead peer is noticed.** From the head of the main loop on, as long as no packet and no input comes,
the socket is there and the clock is read again within `gap`: once two keepalive periods and four rounds
have gone by, a reconnect has been forced. -/
theorem dead_peer_noticed {memory : Memory} {opts : ClientOptions} {earlier answers : List RunAnswer}
    {head s : RunSession} {before events : List RunEvent} {gap : Duration}
    (hreached : (runMachine memory).run (RunSession.start opts) earlier = some (head, before))
    (hhead : head.pc = .loopHead)
    (hsilent : (runMachine memory).Along (Silent gap) head answers)
    (hrun : (runMachine memory).run head answers = some (s, events))
    (hlong : head.clock + 2 * opts.keepaliveDuration + 4 * gap < s.clock) : .forced ∈ events := by
  have hpunctual : head.Punctual before := (runMachine memory).run_invariant
    (fun hs hstep => hs.step hstep) [] (RunSession.start_punctual opts) hreached
  have hstart : .forced ∈ ([] : List RunEvent) ∨ head.Watched head.clock gap :=
    .inr (hpunctual.watched hhead gap)
  have hend := (runMachine memory).run_invariant_along
    (I := fun s events => .forced ∈ events ∨ s.Watched head.clock gap)
    RunSession.forced_or_watched [] hstart hsilent hrun
  rcases hend with hforced | hwatched
  · exact hforced
  · have hopts : s.opts = opts := RunSession.opts_eq_of_run
      ((runMachine memory).run_append_eq_some.mpr ⟨head, before, events, hreached, hrun, rfl⟩)
    have hclock := hwatched.clock_le
    rw [hopts] at hclock
    exact absurd hclock (not_le.mpr hlong)

/-- Clock readings a second apart, and a period of one second. -/
theorem dead_peer_noticed_after_seven_seconds :
    let memory : Memory := fun len => len ≤ maxProtoBytes
    let second : Instant := 1000000000
    let check (t : Instant) : List RunAnswer :=
      [.shuttingDown false, .shutdown false, .hasSocket true, .read none, .now (t * second)]
    let opening : List RunAnswer :=
      [.wrote true, .now 0, .now 0, .read (some (Packet.new EtPacket.initialResponse [])), .now 0]
    let silence : List RunAnswer := check 1 ++ [.now (2 * second), .wrote true, .hasSocket true]
      ++ check 3 ++ [.now (4 * second), .closed, .hasSocket true]
      ++ check 5 ++ [.now (6 * second), .wrote true, .hasSocket true] ++ check 7
    let head : RunSession :=
      { RunSession.start { keepaliveSecs := 1, noTerminal := true } with
        pc := .loopHead
        keepaliveDeadline := second }
    ∃ before s events,
      (runMachine memory).run (RunSession.start { keepaliveSecs := 1, noTerminal := true }) opening =
          some (head, before)
        ∧ (runMachine memory).run head silence = some (s, events) ∧ .forced ∈ events := by
  intro memory second check opening silence head
  have hopened : ((runMachine memory).run
      (RunSession.start { keepaliveSecs := 1, noTerminal := true }) opening).map (fun out =>
        (out.1.pc, out.1.clock, out.1.keepaliveDeadline, out.1.waitingOnKeepalive, out.1.lastTi)) =
      some (.loopHead, 0, second, false, {}) := by
    decide +kernel
  obtain ⟨⟨⟨opts, pc, clock, deadline, waiting, ti⟩, before⟩, hreached, hat⟩ :=
    Option.map_eq_some_iff.mp hopened
  have hopts : opts = { keepaliveSecs := 1, noTerminal := true } := RunSession.opts_eq_of_run hreached
  simp only [Prod.mk.injEq] at hat
  obtain ⟨rfl, rfl, rfl, rfl, rfl⟩ := hat
  subst hopts
  have hran : ((runMachine memory).run head silence).map (fun out => out.1.clock) =
      some (7 * second) := by
    decide +kernel
  obtain ⟨⟨s, events⟩, hrun, hclock⟩ := Option.map_eq_some_iff.mp hran
  have hsilent : (runMachine memory).Along (Silent second) head silence := by
    decide +kernel
  refine ⟨before, s, events, hreached, hrun, dead_peer_noticed hreached rfl hsilent hrun ?_⟩
  rw [hclock]
  decide

/-! ### Input puts the deadline off -/

theorem ClientOptions.keepaliveDuration_pos (opts : ClientOptions) : 0 < opts.keepaliveDuration :=
  Nat.mul_pos (Nat.lt_of_lt_of_le Nat.one_pos (Nat.le_max_left 1 _)) (by decide)

/-- A round of the main loop in which the socket is there, nothing is read and the user types. -/
def TypedRound (bytes : Bytes) (round : List RunAnswer) : Prop :=
  ∃ before after ti, round = [.shuttingDown false, .shutdown false, .hasSocket true, .read none,
    .now before, .input (.ok (some bytes)), .wrote true, .now after, .size ti]

/-- The round that begins at the clock and takes `gap`. -/
def typedRound (s : RunSession) (gap : Duration) (bytes : Bytes) : List RunAnswer :=
  [.shuttingDown false, .shutdown false, .hasSocket true, .read none, .now s.clock,
    .input (.ok (some bytes)), .wrote true, .now (s.clock + gap), .size s.lastTi]

theorem run_typedRound (memory : Memory) {s : RunSession} (hpc : s.pc = .loopHead)
    (hconsole : s.opts.noTerminal = false) (hearly : s.clock < s.keepaliveDeadline) (gap : Duration)
    (bytes : Bytes) :
    (runMachine memory).run s (typedRound s gap bytes) = some
      ({ s with clock := s.clock + gap, keepaliveDeadline := s.clock + gap + s.opts.keepaliveDuration },
        [.hasSocket true, .now s.clock, .wrote (bufferPacket bytes) true, .now (s.clock + gap)]) := by
  have hle : s.clock ≤ s.clock + gap := Nat.le_add_right _ _
  simp [typedRound, Transducer.run, runMachine, runStep, hpc, hconsole, not_le.mpr hearly,
    ClientOptions.onDrained, ClientOptions.onLocal, RunSession.tick, RunSession.rearm, hle]

/-- The clock is read again within `gap`. -/
def Prompt (gap : Duration) (s : RunSession) (answer : RunAnswer) : Prop :=
  ∀ t, answer = .now t → t ≤ s.clock + gap

theorem clock_le_of_step {memory : Memory} {s next : RunSession} {answer : RunAnswer}
    {events : List RunEvent} (hstep : runMachine memory s answer = some (next, events)) :
    s.clock ≤ next.clock := by
  cases RunSession.runStep_spec hstep with
  | ticks hplain hplain' hclock => exact hclock
  | rearms hplain hplain' hclock => exact hclock
  | rearmsOutput hpc hclock => exact hclock
  | due hpc hclock hdue => exact hclock
  | rearmsKeepalive hpc hclock => exact hclock
  | @reads coalesced packet hpc =>
      obtain ⟨pc, -, hnext⟩ := s.onPacket_spec memory coalesced packet
      rw [hnext]
  | _ => exact le_rfl

theorem prompt_of_le {memory : Memory} {s : RunSession} {gap : Duration} {answers : List RunAnswer}
    (h : ∀ t, .now t ∈ answers → t ≤ s.clock + gap) :
    (runMachine memory).Along (Prompt gap) s answers := by
  rintro first answer hpre t events next out hrun hstep reading rfl
  have hclock : s.clock ≤ t.clock := (runMachine memory).run_invariant_state
    (I := fun t => s.clock ≤ t.clock) (fun ht hstep => ht.trans (clock_le_of_step hstep)) le_rfl hrun
  have hmem : .now reading ∈ answers := hpre.subset (by simp)
  exact (h reading hmem).trans (Nat.add_le_add_right hclock gap)

/-- **Typing hides a dead peer.** From any head of the main loop that is before its deadline, and for any
time between two readings: however long the peer is silent, if the user types in every round the loop
neither writes a keepalive nor forces a reconnect. -/
theorem typing_hides_dead_peer (memory : Memory) (head : RunSession) (hhead : head.pc = .loopHead)
    (hconsole : head.opts.noTerminal = false) (hearly : head.clock < head.keepaliveDeadline)
    (gap : Duration) (typed : List Bytes) :
    ∃ rounds s events, List.Forall₂ TypedRound typed rounds
      ∧ (runMachine memory).run head rounds.flatten = some (s, events)
      ∧ s.pc = .loopHead ∧ s.clock = head.clock + typed.length * gap
      ∧ (runMachine memory).Along (Prompt gap) head rounds.flatten
      ∧ (∀ packet, .read (some packet) ∉ rounds.flatten)
      ∧ (∀ result, .wrote keepAlivePacket result ∉ events) ∧ .forced ∉ events := by
  induction typed generalizing head with
  | nil =>
      exact ⟨[], head, [], .nil, rfl, hhead, by simp, (runMachine memory).along_nil _ _, by simp,
        by simp, by simp⟩
  | cons bytes typed ih =>
      have hround := run_typedRound memory hhead hconsole hearly gap bytes
      obtain ⟨rounds, s, events, htyped, hrun, hpc, hclock, hprompt, hunread, hquiet, hforced⟩ := ih
        { head with
          clock := head.clock + gap
          keepaliveDeadline := head.clock + gap + head.opts.keepaliveDuration }
        hhead hconsole (Nat.lt_add_of_pos_right head.opts.keepaliveDuration_pos)
      have hfirst : (runMachine memory).Along (Prompt gap) head (typedRound head gap bytes) := by
        refine prompt_of_le fun t hmem => ?_
        simp only [typedRound, List.mem_cons, reduceCtorEq, RunAnswer.now.injEq, List.not_mem_nil,
          or_false, false_or] at hmem
        rcases hmem with rfl | rfl
        · exact Nat.le_add_right _ _
        · exact le_rfl
      refine ⟨typedRound head gap bytes :: rounds, s, _, .cons ⟨_, _, _, rfl⟩ htyped,
        (runMachine memory).run_append_eq_some.mpr ⟨_, _, _, hround, hrun, rfl⟩, hpc, ?_,
        ((runMachine memory).along_append hround).mpr ⟨hfirst, hprompt⟩, ?_, ?_, ?_⟩
      · rw [hclock, List.length_cons, Nat.succ_mul, Nat.add_comm (typed.length * gap)]
        exact Nat.add_assoc ..
      · simpa [typedRound] using hunread
      · intro result hmem
        rcases List.mem_append.mp hmem with hround | hlater
        · simp only [List.mem_cons, reduceCtorEq, RunEvent.wrote.injEq, List.not_mem_nil, or_false,
            false_or] at hround
          exact absurd (congrArg Packet.header hround.1)
            (show TerminalPacket.keepAlive ≠ TerminalPacket.terminalBuffer by decide)
        · exact hquiet result hlater
      · simpa using hforced

/-- An hour of typing, a key every second. -/
theorem typing_hides_dead_peer_for_an_hour :
    let second : Instant := 1000000000
    let head : RunSession :=
      { RunSession.start {} with pc := .loopHead, keepaliveDeadline := 5 * second }
    ∃ rounds s events, List.Forall₂ TypedRound (List.replicate 3600 [0x78]) rounds
      ∧ (runMachine fun _ => true).run head rounds.flatten = some (s, events)
      ∧ s.clock = 3600 * second ∧ .forced ∉ events := by
  intro second head
  obtain ⟨rounds, s, events, htyped, hrun, -, hclock, -, -, -, hforced⟩ :=
    typing_hides_dead_peer (fun _ => true) head rfl rfl (by decide) second (List.replicate 3600 [0x78])
  rw [List.length_replicate] at hclock
  exact ⟨rounds, s, events, htyped, hrun, hclock.trans (Nat.zero_add _), hforced⟩

end EternalTerminal
