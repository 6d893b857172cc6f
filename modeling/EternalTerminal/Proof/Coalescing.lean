import EternalTerminal.Session.RunLoop

/-!
# Coalesced terminal output

The main loop gathers the output of a batch of packets and passes it to the console when the batch is
drained. What it passed and what it still holds is together what it would have passed packet by packet.
Only an exit in the middle of a batch loses what it holds.
-/

namespace EternalTerminal

/-- The output of a packet: the buffer of a `TERMINAL_BUFFER` packet. -/
def Packet.output (memory : Memory) (packet : Packet) : Bytes :=
  if packet.header = TerminalPacket.terminalBuffer then
    match (ProtoMessage.decode memory packet.payload : Decoded TerminalBuffer) with
    | .ok tb => tb.buffer.getD []
    | .error _ => []
  else []

/-- A `TERMINAL_BUFFER` packet that fails to decode. -/
def Packet.Undecodable (memory : Memory) (packet : Packet) : Prop :=
  packet.header = TerminalPacket.terminalBuffer
    ∧ ∃ e, (ProtoMessage.decode memory packet.payload : Decoded TerminalBuffer) = .error (.err e)

namespace RunEvent

/-- The bytes passed to the console. -/
def shownBytes (events : List RunEvent) : Bytes :=
  events.flatMap fun event =>
    match event with
    | .shown bytes => bytes
    | _ => []

/-- The bytes of the packets that the main loop read: what the console gets when each packet is written
as it is read. -/
def outputBytes (memory : Memory) (events : List RunEvent) : Bytes :=
  events.flatMap fun event =>
    match event with
    | .read packet => packet.output memory
    | _ => []

theorem shownBytes_append (before after : List RunEvent) :
    shownBytes (before ++ after) = shownBytes before ++ shownBytes after := by
  exact List.flatMap_append

theorem outputBytes_append (memory : Memory) (before after : List RunEvent) :
    outputBytes memory (before ++ after) = outputBytes memory before ++ outputBytes memory after := by
  exact List.flatMap_append

theorem Quiet.shownBytes {events : List RunEvent} (h : Quiet events) : shownBytes events = [] := by
  apply List.flatMap_eq_nil_iff.mpr
  intro event hmem
  obtain ⟨packet, result, rfl, -⟩ := h event hmem
  rfl

theorem Quiet.outputBytes {events : List RunEvent} (h : Quiet events) (memory : Memory) :
    outputBytes memory events = [] := by
  apply List.flatMap_eq_nil_iff.mpr
  intro event hmem
  obtain ⟨packet, result, rfl, -⟩ := h event hmem
  rfl

end RunEvent

open RunEvent

/-- The output that the loop holds at a place. -/
def RunPc.held : RunPc → Bytes
  | .draining coalesced => coalesced
  | .rearmingOutput coalesced => coalesced
  | .showing coalesced => coalesced
  | _ => []

theorem RunPc.Plain.held {pc : RunPc} (h : pc.Plain) : pc.held = [] := by
  cases pc with
  | draining coalesced => exact absurd h id
  | rearmingOutput coalesced => exact absurd h id
  | showing coalesced => exact absurd h id
  | _ => rfl

theorem ClientOptions.held_onDrained {opts : ClientOptions} (hconsole : opts.noTerminal = false)
    (coalesced : Bytes) : (opts.onDrained coalesced).held = coalesced := by
  unfold onDrained
  by_cases hempty : coalesced = []
  · simp [hempty, RunPc.held]
  · simp [hempty, hconsole, RunPc.held]

namespace RunSession

/-- An undecodable packet finds nothing gathered before it in its batch. -/
def LosesNothing (memory : Memory) (s : RunSession) (answer : RunAnswer) : Prop :=
  ∀ coalesced packet, s.pc = .draining coalesced → answer = .read (some packet) →
    packet.Undecodable memory → coalesced = []

/-- What was shown, with what the loop holds, is the output read so far. -/
structure Gathered (memory : Memory) (s : RunSession) (events : List RunEvent) : Prop where
  console : s.opts.noTerminal = false
  bytes : s.pc ≠ .crashed → shownBytes events ++ s.pc.held = outputBytes memory events

theorem start_gathered {opts : ClientOptions} (hconsole : opts.noTerminal = false)
    (memory : Memory) : Gathered memory (start opts) [] :=
  ⟨hconsole, fun _ => rfl⟩

variable {memory : Memory} {s next : RunSession} {answer : RunAnswer} {before events : List RunEvent}

theorem ne_crashed_of_step (h : runMachine memory s answer = some (next, events)) :
    s.pc ≠ .crashed := by
  intro hcrashed
  simp [runMachine, hcrashed, runStep] at h

theorem Gathered.keep (h : Gathered memory s before) (hcrashed : s.pc ≠ .crashed)
    (hopts : next.opts = s.opts) (hheld : next.pc.held = s.pc.held) (hshown : shownBytes events = [])
    (hread : outputBytes memory events = []) : Gathered memory next (before ++ events) := by
  refine ⟨hopts ▸ h.console, fun _ => ?_⟩
  rw [shownBytes_append, outputBytes_append, hshown, hread, hheld, List.append_nil, List.append_nil]
  exact h.bytes hcrashed

/-- What a packet adds to what the loop holds: its output, unless it ends the session. -/
theorem held_onPacket {coalesced : Bytes} {packet : Packet} (hconsole : s.opts.noTerminal = false)
    (hdecodes : packet.Undecodable memory → coalesced = [])
    (hcrashed : (s.onPacket memory coalesced packet).pc ≠ .crashed) :
    (s.onPacket memory coalesced packet).pc.held = coalesced ++ packet.output memory := by
  unfold onPacket Packet.output at *
  by_cases hheader : packet.header = TerminalPacket.terminalBuffer
  · simp only [hheader, hconsole, if_true, Bool.false_eq_true, if_false, ClientOptions.onOutput]
      at hcrashed ⊢
    rcases hdecode : (ProtoMessage.decode memory packet.payload : Decoded TerminalBuffer) with e | tb
    · cases e with
      | crash => exact absurd (by simp [hdecode]) hcrashed
      | err e => simp [RunPc.held, hdecodes ⟨hheader, e, hdecode⟩]
    · simp [RunPc.held]
  · simp only [hheader, if_false, List.append_nil]
    split_ifs <;> rfl

theorem Gathered.step (h : Gathered memory s before) (hloses : s.LosesNothing memory answer)
    (hstep : runMachine memory s answer = some (next, events)) :
    Gathered memory next (before ++ events) := by
  have hcrashed := ne_crashed_of_step hstep
  cases runStep_spec hstep with
  | moves hplain hplain' hanswer hquiet =>
      exact h.keep hcrashed rfl (hplain'.held.trans hplain.held.symm) hquiet.shownBytes
        (hquiet.outputBytes memory)
  | @responds deadline packet hpc =>
      refine h.keep hcrashed rfl ?_ ?_ ?_
      · rw [(s.opts.onResponse_plain memory deadline packet).held, hpc]
        rfl
      · cases packet <;> rfl
      · cases packet <;> rfl
  | ticks hplain hplain' hclock =>
      exact h.keep hcrashed rfl (hplain'.held.trans hplain.held.symm) rfl rfl
  | rearms hplain hplain' hclock =>
      exact h.keep hcrashed rfl (hplain'.held.trans hplain.held.symm) rfl rfl
  | ends hpc => exact h.keep hcrashed rfl (by rw [hpc]; rfl) rfl rfl
  | connected hpc => exact h.keep hcrashed rfl (by rw [hpc]; rfl) rfl rfl
  | unconnected hpc =>
      exact h.keep hcrashed rfl (by rw [hpc]; exact s.opts.onLocal_plain.held) rfl rfl
  | @drained coalesced hpc =>
      refine h.keep hcrashed rfl ?_ rfl rfl
      rw [hpc]
      exact ClientOptions.held_onDrained h.console coalesced
  | @reads coalesced packet hpc =>
      refine ⟨(s.onPacket_opts memory coalesced packet).symm ▸ h.console, fun hcrashed' => ?_⟩
      have hheld := held_onPacket h.console (hloses coalesced packet hpc rfl) hcrashed'
      have hbytes := h.bytes hcrashed
      rw [hpc] at hbytes
      rw [shownBytes_append, outputBytes_append, hheld, ← hbytes]
      simp [RunPc.held, shownBytes, outputBytes]
  | rearmsOutput hpc hclock => exact h.keep hcrashed rfl (by rw [hpc]; rfl) rfl rfl
  | @shows coalesced result pc hpc hplain =>
      refine ⟨h.console, fun _ => ?_⟩
      have hbytes := h.bytes hcrashed
      rw [hpc] at hbytes
      rw [shownBytes_append, outputBytes_append, ← hbytes, hplain.held]
      simp [RunPc.held, shownBytes, outputBytes]
  | due hpc hclock hdue => exact h.keep hcrashed rfl (by rw [hpc]; rfl) rfl rfl
  | rearmsKeepalive hpc hclock =>
      refine h.keep hcrashed rfl ?_ rfl rfl
      rw [hpc]
      cases s.waitingOnKeepalive <;> rfl
  | forces hpc =>
      exact h.keep hcrashed rfl (by rw [hpc]; exact s.opts.onLocal_plain.held) rfl rfl
  | sendsKeepalive hpc =>
      exact h.keep hcrashed rfl (by rw [hpc]; exact s.opts.onLocal_plain.held) rfl rfl

/-- The `?` on an undecodable packet drops what the batch gathered before it. -/
theorem Gathered.lost (h : Gathered memory s before) (hloses : ¬ s.LosesNothing memory answer)
    (hstep : runMachine memory s answer = some (next, events)) :
    (∃ result, next.pc = .returned result)
      ∧ shownBytes (before ++ events) ≠ outputBytes memory (before ++ events) := by
  simp only [LosesNothing, not_forall] at hloses
  obtain ⟨coalesced, packet, hpc, rfl, ⟨hheader, e, hdecode⟩, hgathered⟩ := hloses
  have hbytes := h.bytes (ne_crashed_of_step hstep)
  rw [hpc] at hbytes
  simp only [runMachine, hpc, runStep, Option.some.injEq, Prod.mk.injEq] at hstep
  obtain ⟨rfl, rfl⟩ := hstep
  refine ⟨⟨.error (.proto e), ?_⟩, ?_⟩
  · simp [onPacket, hheader, h.console, ClientOptions.onOutput, hdecode]
  · rw [shownBytes_append, outputBytes_append, ← hbytes]
    simp [shownBytes, outputBytes, Packet.output, hheader, hdecode, RunPc.held, hgathered]

end RunSession

/-- **Coalescing.** With a console, the bytes passed to it before `run_session` returns are those of all
`TERMINAL_BUFFER` packets read, however they were grouped and however the session ends, exactly in the
runs in which no undecodable packet comes behind gathered output. -/
theorem coalescing_invisible_iff (memory : Memory) (opts : ClientOptions)
    (hconsole : opts.noTerminal = false) (answers : List RunAnswer) :
    (runMachine memory).Always
        (fun s events => ∀ result, s.pc = .returned result →
          shownBytes events = outputBytes memory events) (RunSession.start opts) answers
      ↔ (runMachine memory).Along (fun s answer => ∀ coalesced packet, s.pc = .draining coalesced →
          answer = .read (some packet) → packet.Undecodable memory → coalesced = [])
        (RunSession.start opts) answers := by
  refine (runMachine memory).always_iff_along (J := RunSession.Gathered memory)
    (C := RunSession.LosesNothing memory) ?_ ?_ ?_ (RunSession.start_gathered hconsole memory) answers
  · intro s before answer next events hgathered hloses hstep
    exact hgathered.step hloses hstep
  · intro s events hgathered result hpc
    have hbytes := hgathered.bytes (by simp [hpc])
    have hheld : (RunPc.returned result).held = [] := rfl
    rwa [hpc, hheld, List.append_nil] at hbytes
  · intro s before answer next events hgathered hloses hstep hinvisible
    obtain ⟨⟨result, hpc⟩, hdiffers⟩ := hgathered.lost hloses hstep
    exact hdiffers (hinvisible result hpc)

/-- One packet of output, and then the console has nothing more to give. -/
theorem coalescing_invisible_iff_console :
    let memory : Memory := fun len => len ≤ maxProtoBytes
    (runMachine memory).Always
      (fun s events => ∀ result, s.pc = .returned result →
        shownBytes events = outputBytes memory events) (RunSession.start {})
      [.wrote true, .now 0, .now 0, .read (some (Packet.new EtPacket.initialResponse [])),
        .opened (.ok ()), .now 0, .shuttingDown false, .shutdown false, .hasSocket true,
        .read (some (bufferPacket [0x68, 0x69])), .now 0, .read none, .shown (.ok ()), .now 0,
        .input (.error (.io .other))] := by
  intro memory
  apply (coalescing_invisible_iff memory {} rfl _).2
  rintro first answer hpre s events next out hrun hstep coalesced packet hpc rfl ⟨hheader, e, hdecode⟩
  have hmem := hpre.subset (List.mem_append_right first List.mem_cons_self)
  obtain rfl | rfl : packet = Packet.new EtPacket.initialResponse []
      ∨ packet = bufferPacket [0x68, 0x69] := by simpa using hmem
  · exact absurd hheader (by decide)
  · have hok : (ProtoMessage.decode memory (bufferPacket [0x68, 0x69]).payload :
        Decoded TerminalBuffer) = .ok { buffer := some [0x68, 0x69] } := by decide +kernel
    rw [hok] at hdecode
    exact absurd hdecode (by simp)

/-- The output `hi` and an undecodable payload arrive in one batch. -/
theorem gathered_output_lost :
    let memory : Memory := fun len => len ≤ maxProtoBytes
    ∃ s events,
      (runMachine memory).run (RunSession.start {})
          [.wrote true, .now 0, .now 0, .read (some (Packet.new EtPacket.initialResponse [])),
            .opened (.ok ()), .now 0, .shuttingDown false, .shutdown false, .hasSocket true,
            .read (some (bufferPacket [0x68, 0x69])), .now 0,
            .read (some (Packet.new TerminalPacket.terminalBuffer [0xff]))] = some (s, events)
        ∧ s.pc = .returned (.error (.proto .truncated))
        ∧ shownBytes events = []
        ∧ outputBytes memory events = [0x68, 0x69] := by
  intro memory
  have hran : ((runMachine memory).run (RunSession.start {})
      [.wrote true, .now 0, .now 0, .read (some (Packet.new EtPacket.initialResponse [])),
        .opened (.ok ()), .now 0, .shuttingDown false, .shutdown false, .hasSocket true,
        .read (some (bufferPacket [0x68, 0x69])), .now 0,
        .read (some (Packet.new TerminalPacket.terminalBuffer [0xff]))]).map (fun out =>
          (out.1.pc, shownBytes out.2, outputBytes memory out.2)) =
      some (.returned (.error (.proto .truncated)), [], [0x68, 0x69]) := by
    decide +kernel
  obtain ⟨⟨s, events⟩, hrun, hout⟩ := Option.map_eq_some_iff.mp hran
  obtain ⟨hpc, hbytes⟩ := Prod.mk.inj hout
  obtain ⟨hshown, hread⟩ := Prod.mk.inj hbytes
  exact ⟨s, events, hrun, hpc, hshown, hread⟩

end EternalTerminal
