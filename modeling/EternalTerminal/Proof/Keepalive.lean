import EternalTerminal.Library.History
import EternalTerminal.Session.RunLoop

/-!
# The keepalive of the main loop

The deadline only moves forward and never past the clock by more than the keepalive duration. So while
the loop waits for an answer, the deadline is at least that duration after the reading that armed it,
and reaching it means that the whole duration went by.
-/

namespace EternalTerminal

namespace RunEvent

def WritesKeepAlive : RunEvent → Prop
  | .wrote packet _ => packet.header = TerminalPacket.keepAlive
  | _ => False

/-- What ends the wait for an answer: a `KEEP_ALIVE` packet, a missing socket or a forced reconnect. -/
def AnswersKeepAlive : RunEvent → Prop
  | .read packet => packet.header = TerminalPacket.keepAlive
  | .hasSocket value => value = false
  | .forced => True
  | _ => False

/-- Neither a `KEEP_ALIVE` write nor an answer to one. -/
def Bystander (event : RunEvent) : Prop := ¬ event.WritesKeepAlive ∧ ¬ event.AnswersKeepAlive

theorem Quiet.bystander {events : List RunEvent} (h : Quiet events) :
    ∀ event ∈ events, event.Bystander := by
  intro event hmem
  obtain ⟨packet, result, rfl, hheader⟩ := h event hmem
  exact ⟨hheader, id⟩

end RunEvent

open RunEvent History

/-- A `KEEP_ALIVE` is out without an answer, and the reading before its write is at least `duration`
before `deadline`. -/
def Awaits (duration : Duration) (deadline : Instant) (events : List RunEvent) : Prop :=
  ∃ earlier t result mid, events = earlier ++ .now t :: .wrote keepAlivePacket result :: mid
    ∧ t + duration ≤ deadline ∧ ∀ event ∈ mid, event.Bystander

namespace Awaits

variable {duration : Duration} {deadline deadline' : Instant} {events out : List RunEvent}

theorem mono (h : Awaits duration deadline events) (hle : deadline ≤ deadline') :
    Awaits duration deadline' events := by
  obtain ⟨earlier, t, result, mid, rfl, hage, hmid⟩ := h
  exact ⟨earlier, t, result, mid, rfl, hage.trans hle, hmid⟩

theorem append (h : Awaits duration deadline events) (hout : ∀ event ∈ out, event.Bystander) :
    Awaits duration deadline (events ++ out) := by
  obtain ⟨earlier, t, result, mid, rfl, hage, hmid⟩ := h
  refine ⟨earlier, t, result, mid ++ out, by simp, hage, ?_⟩
  intro event hmem
  rcases List.mem_append.mp hmem with hbefore | hafter
  · exact hmid event hbefore
  · exact hout event hafter

end Awaits

namespace RunSession

/-- What holds at a place of the keepalive. -/
def Due (s : RunSession) (events : List RunEvent) : RunPc → Prop
  | .rearmingKeepalive => ∃ before due, events = before ++ [.now due]
      ∧ (s.waitingOnKeepalive = true → Awaits s.opts.keepaliveDuration due before)
  | .forcing => ∃ before due rearmed, events = before ++ [.now due, .now rearmed]
      ∧ Awaits s.opts.keepaliveDuration due before
  | .sendingKeepalive => ∃ before t, events = before ++ [.now t]
      ∧ s.keepaliveDeadline = t + s.opts.keepaliveDuration ∧ s.waitingOnKeepalive = false
  | _ => True

theorem due_of_plain {s : RunSession} {events : List RunEvent} {pc : RunPc} (h : pc.Plain) :
    s.Due events pc := by
  cases pc with
  | rearmingKeepalive => exact absurd h id
  | forcing => exact absurd h id
  | sendingKeepalive => exact absurd h id
  | _ => exact trivial

/-- The keepalive and the history. -/
structure Punctual (s : RunSession) (events : List RunEvent) : Prop where
  capped : s.keepaliveDeadline ≤ s.clock + s.opts.keepaliveDuration
  awaits : s.waitingOnKeepalive = true →
    Awaits s.opts.keepaliveDuration s.keepaliveDeadline events
  answered : s.waitingOnKeepalive = false → Answered WritesKeepAlive AnswersKeepAlive events
  separated : Separated WritesKeepAlive AnswersKeepAlive events
  due : s.Due events s.pc

theorem start_punctual (opts : ClientOptions) : Punctual (start opts) [] :=
  ⟨Nat.zero_le _, by simp [start], fun _ => .nil, .nil, trivial⟩

variable {memory : Memory} {s next : RunSession} {answer : RunAnswer} {before events : List RunEvent}

theorem Punctual.keep (h : Punctual s before) (hopts : next.opts = s.opts)
    (hwaiting : next.waitingOnKeepalive = s.waitingOnKeepalive) (hclock : s.clock ≤ next.clock)
    (hdeadline : next.keepaliveDeadline = s.keepaliveDeadline
      ∨ next.keepaliveDeadline = next.clock + s.opts.keepaliveDuration)
    (hquiet : ∀ event ∈ events, event.Bystander) (hdue : next.Due (before ++ events) next.pc) :
    Punctual next (before ++ events) := by
  have hcapped : s.keepaliveDeadline ≤ next.clock + s.opts.keepaliveDuration :=
    h.capped.trans (Nat.add_le_add_right hclock _)
  have hlater : s.keepaliveDeadline ≤ next.keepaliveDeadline := by
    rcases hdeadline with hsame | hmoved
    · exact hsame.ge
    · exact hmoved ▸ hcapped
  refine ⟨?_, fun hwaits => ?_, fun hrests => ?_, ?_, hdue⟩
  · rw [hopts]
    rcases hdeadline with hsame | hmoved
    · exact hsame ▸ hcapped
    · exact hmoved.le
  · rw [hopts]
    exact ((h.awaits (hwaiting ▸ hwaits)).mono hlater).append hquiet
  · exact (h.answered (hwaiting ▸ hrests)).append fun event hmem => (hquiet event hmem).1
  · exact h.separated.append fun event hmem => (hquiet event hmem).1

theorem Punctual.rest (h : Punctual s before) {event : RunEvent} (hanswer : event.AnswersKeepAlive)
    (hopts : next.opts = s.opts) (hwaiting : next.waitingOnKeepalive = false)
    (hclock : next.clock = s.clock) (hdeadline : next.keepaliveDeadline = s.keepaliveDeadline)
    (hplain : next.Due (before ++ [event]) next.pc) : Punctual next (before ++ [event]) := by
  have hrequest : ¬ event.WritesKeepAlive := by
    cases event <;> first | exact id | exact absurd hanswer id
  refine ⟨?_, fun hwaits => ?_, fun _ => .of_answer hanswer hrequest before, ?_, hplain⟩
  · rw [hopts, hclock, hdeadline]
    exact h.capped
  · rw [hwaiting] at hwaits
    exact absurd hwaits (by decide)
  · exact h.separated.append (by simpa using hrequest)

/-- Reading a packet moves neither the deadline nor the clock, and leads to no place of the keepalive. -/
theorem onPacket_spec (memory : Memory) (s : RunSession) (coalesced : Bytes) (packet : Packet) :
    ∃ pc, (∀ (s' : RunSession) (events : List RunEvent), s'.Due events pc)
      ∧ s.onPacket memory coalesced packet = { s with
        pc
        waitingOnKeepalive := s.waitingOnKeepalive && packet.header != TerminalPacket.keepAlive } := by
  unfold onPacket
  by_cases houtput : packet.header = TerminalPacket.terminalBuffer
  · have hkeeps : (packet.header != TerminalPacket.keepAlive) = true := by rw [houtput]; decide
    simp only [houtput, if_true] at hkeeps ⊢
    simp only [hkeeps, Bool.and_true]
    split_ifs
    · exact ⟨.draining coalesced, fun _ _ => trivial, rfl⟩
    · refine ⟨_, fun s' events => ?_, rfl⟩
      unfold ClientOptions.onOutput
      split <;> exact trivial
  · by_cases hanswer : packet.header = TerminalPacket.keepAlive
    · refine ⟨.draining coalesced, fun _ _ => trivial, ?_⟩
      rw [if_neg houtput, if_pos hanswer, hanswer, bne_self_eq_false, Bool.and_false]
    · have hkeeps : (packet.header != TerminalPacket.keepAlive) = true := bne_iff_ne.mpr hanswer
      simp only [houtput, hanswer, if_false, ite_self, hkeeps, Bool.and_true]
      exact ⟨.draining coalesced, fun _ _ => trivial, rfl⟩

theorem bystander_singleton {event : RunEvent} (h : event.Bystander) :
    ∀ other ∈ [event], other.Bystander := by
  intro other hmem
  rwa [List.mem_singleton.mp hmem]

theorem bystander_now (t : Instant) : ∀ event ∈ [RunEvent.now t], event.Bystander :=
  bystander_singleton ⟨id, id⟩

theorem Punctual.step (h : Punctual s before)
    (hstep : runMachine memory s answer = some (next, events)) :
    Punctual next (before ++ events) := by
  cases runStep_spec hstep with
  | moves hplain hplain' hanswer hquiet =>
      exact h.keep rfl rfl le_rfl (.inl rfl) hquiet.bystander (due_of_plain hplain')
  | @responds deadline packet hpc =>
      refine h.keep rfl rfl le_rfl (.inl rfl) (fun event hmem => ?_)
        (due_of_plain (s.opts.onResponse_plain memory deadline packet))
      obtain ⟨packet, -, rfl⟩ := List.mem_map.mp hmem
      exact ⟨id, id⟩
  | ticks hplain hplain' hclock =>
      exact h.keep rfl rfl hclock (.inl rfl) (bystander_now _) (due_of_plain hplain')
  | rearms hplain hplain' hclock =>
      exact h.keep rfl rfl hclock (.inr rfl) (bystander_now _) (due_of_plain hplain')
  | ends hpc => exact h.keep rfl rfl le_rfl (.inl rfl) (bystander_singleton ⟨id, id⟩) trivial
  | connected hpc =>
      have hpresent : (RunEvent.hasSocket true).Bystander := ⟨id, Bool.noConfusion⟩
      exact h.keep rfl rfl le_rfl (.inl rfl) (bystander_singleton hpresent) trivial
  | unconnected hpc => exact h.rest rfl rfl rfl rfl rfl (due_of_plain s.opts.onLocal_plain)
  | @drained coalesced hpc =>
      refine h.keep rfl rfl le_rfl (.inl rfl) (by simp) ?_
      unfold ClientOptions.onDrained
      split_ifs <;> exact trivial
  | @reads coalesced packet hpc =>
      obtain ⟨pc, hpc', hnext⟩ := s.onPacket_spec memory coalesced packet
      rw [hnext]
      by_cases hanswer : packet.header = TerminalPacket.keepAlive
      · exact h.rest hanswer rfl (by simp [hanswer]) rfl rfl (hpc' _ _)
      · have hkeeps : (packet.header != TerminalPacket.keepAlive) = true := bne_iff_ne.mpr hanswer
        have hother : (RunEvent.read packet).Bystander := ⟨id, hanswer⟩
        exact h.keep rfl (by simp [hkeeps]) le_rfl (.inl rfl) (bystander_singleton hother) (hpc' _ _)
  | rearmsOutput hpc hclock => exact h.keep rfl rfl hclock (.inr rfl) (bystander_now _) trivial
  | shows hpc hplain =>
      exact h.keep rfl rfl le_rfl (.inl rfl) (bystander_singleton ⟨id, id⟩) (due_of_plain hplain)
  | @due t hpc hclock hdue =>
      refine h.keep rfl rfl hclock (.inl rfl) (bystander_now t) ⟨before, t, rfl, fun hwaits => ?_⟩
      exact (h.awaits hwaits).mono hdue
  | @rearmsKeepalive t hpc hclock =>
      have hdue := h.due
      rw [hpc] at hdue
      obtain ⟨earlier, due, rfl, hawaits⟩ := hdue
      refine h.keep rfl rfl hclock (.inr rfl) (bystander_now t) ?_
      by_cases hwaiting : s.waitingOnKeepalive = true
      · simp only [hwaiting, if_true]
        exact ⟨earlier, due, t, by simp, hawaits hwaiting⟩
      · simp only [hwaiting]
        exact ⟨earlier ++ [.now due], t, rfl, rfl, rfl⟩
  | forces hpc => exact h.rest trivial rfl rfl rfl rfl (due_of_plain s.opts.onLocal_plain)
  | @sendsKeepalive result hpc =>
      have hdue := h.due
      rw [hpc] at hdue
      obtain ⟨earlier, t, rfl, hdeadline, hwaiting⟩ := hdue
      refine ⟨h.capped, fun _ => ?_, fun hrests => ?_, h.separated.concat (h.answered hwaiting) _,
        due_of_plain s.opts.onLocal_plain⟩
      · exact ⟨earlier, t, result, [], by simp, hdeadline.ge, by simp⟩
      · exact absurd hrests (by simp)

end RunSession

/-- **The keepalive.** When the main loop forces a reconnect, it wrote a `KEEP_ALIVE` at least the
keepalive duration ago, by the clock reading before that write and the one that found the deadline
reached, and since then neither has a `KEEP_ALIVE` been read nor a socket been missing. Between two
`KEEP_ALIVE` writes one was read, the socket was missing or a reconnect was forced. -/
theorem keepalive_forces_unanswered {memory : Memory} {opts : ClientOptions}
    {answers : List RunAnswer} {s : RunSession} {events : List RunEvent}
    (hrun : (runMachine memory).run (RunSession.start opts) answers = some (s, events)) :
    (s.pc = .forcing → ∃ earlier t result mid due rearmed,
        events = earlier ++ .now t :: .wrote keepAlivePacket result :: mid ++ [.now due, .now rearmed]
          ∧ t + opts.keepaliveDuration ≤ due
          ∧ ∀ event ∈ mid, ¬ event.WritesKeepAlive ∧ ¬ event.AnswersKeepAlive)
      ∧ ∀ earlier first mid second later, events = earlier ++ first :: mid ++ second :: later →
          first.WritesKeepAlive → second.WritesKeepAlive → ∃ event ∈ mid, event.AnswersKeepAlive := by
  have hpunctual : s.Punctual events := (runMachine memory).run_invariant
    (fun hs hstep => hs.step hstep) [] (RunSession.start_punctual opts) hrun
  have hopts : s.opts = opts := RunSession.opts_eq_of_run hrun
  refine ⟨fun hpc => ?_, hpunctual.separated⟩
  have hdue := hpunctual.due
  rw [hpc] at hdue
  obtain ⟨before, due, rearmed, hevents, earlier, t, result, mid, rfl, hage, hmid⟩ := hdue
  exact ⟨earlier, t, result, mid, due, rearmed, hevents, hopts ▸ hage, hmid⟩

/-- Two periods of one second without anything to read. -/
theorem keepalive_forces_unanswered_silence :
    let memory : Memory := fun len => len ≤ maxProtoBytes
    ∃ s events,
      (runMachine memory).run (RunSession.start { keepaliveSecs := 1, noTerminal := true })
          [.wrote true, .now 0, .now 0, .read (some (Packet.new EtPacket.initialResponse [])), .now 0,
            .shuttingDown false, .shutdown false, .hasSocket true, .read none, .now 1000000000,
            .now 1000000000, .wrote true, .hasSocket true, .shuttingDown false, .shutdown false,
            .hasSocket true, .read none, .now 2000000000, .now 2000000000] = some (s, events)
        ∧ ∃ earlier t result mid due rearmed,
            events = earlier ++ .now t :: .wrote keepAlivePacket result :: mid
              ++ [.now due, .now rearmed] ∧ t + 1000000000 ≤ due := by
  intro memory
  have hran : ((runMachine memory).run (RunSession.start { keepaliveSecs := 1, noTerminal := true })
      [.wrote true, .now 0, .now 0, .read (some (Packet.new EtPacket.initialResponse [])), .now 0,
        .shuttingDown false, .shutdown false, .hasSocket true, .read none, .now 1000000000,
        .now 1000000000, .wrote true, .hasSocket true, .shuttingDown false, .shutdown false,
        .hasSocket true, .read none, .now 2000000000, .now 2000000000]).map (fun out => out.1.pc) =
      some .forcing := by
    decide +kernel
  obtain ⟨⟨s, events⟩, hrun, hpc⟩ := Option.map_eq_some_iff.mp hran
  obtain ⟨earlier, t, result, mid, due, rearmed, hevents, hage, -⟩ :=
    (keepalive_forces_unanswered hrun).1 hpc
  exact ⟨s, events, hrun, earlier, t, result, mid, due, rearmed, hevents, hage⟩

end EternalTerminal
