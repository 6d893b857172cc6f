import EternalTerminal.Proof.Coalescing
import EternalTerminal.Proof.Delivery

/-!
# What the console shows of what the session reads

Whatever becomes of the session, the console has shown the beginning of the output of the packets that
`run_session` read, those of the wait for `INITIAL_RESPONSE` included.
-/

namespace EternalTerminal

namespace RunEvent

/-- The packets that `run_session` read. -/
def heard (events : List RunEvent) : List Packet :=
  events.filterMap fun event =>
    match event with
    | .responded packet => some packet
    | .read packet => some packet
    | _ => none

theorem heard_append (before after : List RunEvent) :
    heard (before ++ after) = heard before ++ heard after :=
  List.filterMap_append

theorem Quiet.heard {events : List RunEvent} (h : Quiet events) : heard events = [] := by
  apply List.filterMap_eq_nil_iff.mpr
  intro event hmem
  obtain ⟨packet, result, rfl, -⟩ := h event hmem
  rfl

theorem heard_responded (packet : Option Packet) :
    heard (packet.toList.map .responded) = packet.toList := by
  cases packet <;> rfl

end RunEvent

open RunEvent

/-- What these packets print. -/
def printed (memory : Memory) (packets : List Packet) : Bytes := packets.flatMap (Packet.output memory)

theorem printed_append (memory : Memory) (before after : List Packet) :
    printed memory (before ++ after) = printed memory before ++ printed memory after :=
  List.flatMap_append

theorem RunPc.Plain.ne_showing {pc : RunPc} (h : pc.Plain) (coalesced : Bytes) :
    pc ≠ .showing coalesced := by
  rintro rfl
  exact h

namespace RunSession

variable {memory : Memory} {s next : RunSession} {answer : RunAnswer} {before events : List RunEvent}

theorem not_over_of_step (h : runMachine memory s answer = some (next, events)) : ¬ s.Over := by
  intro hover
  unfold Over at hover
  split at hover
  · next result hpc => exact not_returned_of_step h result hpc
  · next hpc => exact ne_crashed_of_step h hpc
  · exact hover

theorem shown_of_step (h : runMachine memory s answer = some (next, events)) :
    shownBytes events = [] ∨ shownBytes events = s.pc.held := by
  cases runStep_spec h with
  | moves hplain hplain' hread hquiet => exact .inl hquiet.shownBytes
  | @responds deadline packet hpc => cases packet <;> exact .inl rfl
  | shows hpc hplain =>
      rw [hpc]
      exact .inr (List.append_nil _)
  | _ => exact .inl rfl

theorem silent_of_step (hquiet : s.opts.noTerminal = true)
    (hbefore : ∀ coalesced, s.pc ≠ .showing coalesced)
    (h : runMachine memory s answer = some (next, events)) :
    shownBytes events = [] ∧ ∀ coalesced, next.pc ≠ .showing coalesced := by
  cases runStep_spec h with
  | moves hplain hplain' hread hquiet => exact ⟨hquiet.shownBytes, hplain'.ne_showing⟩
  | @responds deadline packet hpc =>
      refine ⟨?_, (s.opts.onResponse_plain memory deadline packet).ne_showing⟩
      cases packet <;> rfl
  | ticks hplain hplain' hclock => exact ⟨rfl, hplain'.ne_showing⟩
  | rearms hplain hplain' hclock => exact ⟨rfl, hplain'.ne_showing⟩
  | unconnected hpc => exact ⟨rfl, s.opts.onLocal_plain.ne_showing⟩
  | drained hpc =>
      refine ⟨rfl, fun coalesced => ?_⟩
      simp [ClientOptions.onDrained, hquiet]
  | reads hpc =>
      refine ⟨rfl, fun coalesced => ?_⟩
      simp only [onPacket, hquiet]
      split_ifs <;> simp
  | shows hpc hplain => exact absurd hpc (hbefore _)
  | forces hpc => exact ⟨rfl, s.opts.onLocal_plain.ne_showing⟩
  | sendsKeepalive hpc => exact ⟨rfl, s.opts.onLocal_plain.ne_showing⟩
  | rearmsKeepalive hpc hclock =>
      refine ⟨rfl, fun coalesced => ?_⟩
      simp only
      split_ifs <;> simp
  | _ => exact ⟨rfl, by simp⟩

/-- A step prints what it hears, unless it ends the session. -/
theorem printed_of_step (h : runMachine memory s answer = some (next, events)) :
    outputBytes memory events <+: printed memory (heard events)
      ∧ (¬ next.Over → outputBytes memory events = printed memory (heard events)) := by
  have hsame : outputBytes memory events = printed memory (heard events) →
      outputBytes memory events <+: printed memory (heard events)
        ∧ (¬ next.Over → outputBytes memory events = printed memory (heard events)) :=
    fun heq => ⟨heq ▸ List.prefix_rfl, fun _ => heq⟩
  cases runStep_spec h with
  | moves hplain hplain' hread hquiet =>
      apply hsame
      rw [hquiet.outputBytes, hquiet.heard]
      rfl
  | @responds deadline packet hpc =>
      have hnothing : outputBytes memory (packet.toList.map .responded) = [] := by
        cases packet <;> rfl
      rw [hnothing, heard_responded]
      refine ⟨List.nil_prefix, fun hgoes => ?_⟩
      cases packet with
      | none => rfl
      | some packet =>
          -- Any other packet than `INITIAL_RESPONSE` ends the session.
          have hheader : packet.header = EtPacket.initialResponse := by
            by_contra hother
            apply hgoes
            simp only [Over, ClientOptions.onResponse, ne_eq, hother, not_false_eq_true, if_true]
          have hquiet : packet.output memory = [] := by
            rw [Packet.output, hheader]
            rfl
          simp [printed, hquiet]
  | _ => exact hsame rfl

/-- What the console shows, what the loop has to show, and what the session hears. -/
structure Displays (memory : Memory) (s : RunSession) (events : List RunEvent) : Prop where
  silent : s.opts.noTerminal = true → shownBytes events = [] ∧ ∀ coalesced, s.pc ≠ .showing coalesced
  shown : shownBytes events <+: outputBytes memory events
  held : s.opts.noTerminal = false → ¬ s.Over →
    shownBytes events ++ s.pc.held = outputBytes memory events
  output : outputBytes memory events <+: printed memory (heard events)
  printed : ¬ s.Over → outputBytes memory events = printed memory (heard events)

theorem start_displays (memory : Memory) (opts : ClientOptions) : Displays memory (start opts) [] where
  silent := fun _ => ⟨rfl, by simp [start]⟩
  shown := List.prefix_rfl
  held := fun _ _ => rfl
  output := List.prefix_rfl
  printed := fun _ => rfl

theorem Displays.step (h : Displays memory s before)
    (hstep : runMachine memory s answer = some (next, events)) :
    Displays memory next (before ++ events) := by
  have hgoes := not_over_of_step hstep
  have hopts := opts_eq_of_step hstep
  obtain ⟨houtput, hprinted⟩ := printed_of_step hstep
  refine ⟨?_, ?_, ?_, ?_, ?_⟩
  · intro hquiet
    obtain ⟨hsilent, hnot⟩ := h.silent (hopts ▸ hquiet)
    obtain ⟨hnothing, hafter⟩ := silent_of_step (hopts ▸ hquiet) hnot hstep
    exact ⟨by rw [shownBytes_append, hsilent, hnothing]; rfl, hafter⟩
  · rw [shownBytes_append, outputBytes_append]
    cases hconsole : s.opts.noTerminal with
    | true =>
        obtain ⟨hsilent, hnot⟩ := h.silent hconsole
        rw [hsilent, (silent_of_step hconsole hnot hstep).1]
        exact List.nil_prefix
    | false =>
        rw [← h.held hconsole hgoes, List.append_assoc, List.prefix_append_right_inj]
        obtain hnothing | hheld := shown_of_step hstep
        · rw [hnothing]
          exact List.nil_prefix
        · rw [hheld]
          exact List.prefix_append _ _
  · intro hconsole hafter
    have hgathered : Gathered memory s before :=
      ⟨hopts ▸ hconsole, fun _ => h.held (hopts ▸ hconsole) hgoes⟩
    by_cases hloses : s.LosesNothing memory answer
    · refine (hgathered.step hloses hstep).bytes fun hcrashed => hafter ?_
      rw [Over, hcrashed]
      trivial
    · obtain ⟨⟨result, hreturned⟩, -⟩ := hgathered.lost hloses hstep
      refine absurd ?_ hafter
      rw [Over, hreturned]
      trivial
  · rw [outputBytes_append, heard_append, printed_append, h.printed hgoes, List.prefix_append_right_inj]
    exact houtput
  · intro hafter
    rw [outputBytes_append, heard_append, printed_append, h.printed hgoes, hprinted hafter]

/-- The console has shown the beginning of what the packets read print. -/
theorem shown_of_heard {opts : ClientOptions} {answers : List RunAnswer}
    (hrun : (runMachine memory).run (start opts) answers = some (s, events)) :
    shownBytes events <+: EternalTerminal.printed memory (heard events) := by
  have hdisplays : Displays memory s events := (runMachine memory).run_invariant
    (I := Displays memory) Displays.step [] (start_displays memory opts) hrun
  exact hdisplays.shown.trans hdisplays.output

end RunSession

end EternalTerminal
