import EternalTerminal.Library.Changes
import EternalTerminal.Proof.Conversation

/-!
# What the console gives and the server gets

Local input goes out as it was read, in order, after the command; of the sizes of the terminal those go
out that differ from the one before.
-/

namespace EternalTerminal

open RunEvent

/-- What the console answered to `poll_input`. -/
def consoleInputs (answers : List RunAnswer) : List Bytes :=
  answers.filterMap fun
    | .input (.ok (some bytes)) => some bytes
    | _ => none

/-- What it answered to `terminal_info`. -/
def consoleSizes (answers : List RunAnswer) : List TerminalInfo :=
  answers.filterMap fun
    | .size ti => some ti
    | _ => none

/-- The packets written with this header. -/
def writtenAs (header : UInt8) (messages : List Message) : List Packet :=
  messages.filterMap fun
    | .out packet => if packet.header = header then some packet else none
    | .in_ _ => none

theorem inputs_concat (answers : List RunAnswer) (answer : RunAnswer) :
    consoleInputs (answers ++ [answer]) = consoleInputs answers ++ consoleInputs [answer] :=
  List.filterMap_append

theorem sizes_concat (answers : List RunAnswer) (answer : RunAnswer) :
    consoleSizes (answers ++ [answer]) = consoleSizes answers ++ consoleSizes [answer] :=
  List.filterMap_append

theorem writtenAs_append (header : UInt8) (before after : List Message) :
    writtenAs header (before ++ after) = writtenAs header before ++ writtenAs header after :=
  List.filterMap_append

theorem writtenAs_wrote {header : UInt8} {packet : Packet} (result : Bool)
    (h : packet.header = header) : writtenAs header (messages [.wrote packet result]) = [packet] := by
  simp [writtenAs, messages, message?, h]

theorem writtenAs_wrote_other {header : UInt8} {packet : Packet} (result : Bool)
    (h : packet.header ≠ header) : writtenAs header (messages [.wrote packet result]) = [] := by
  simp [writtenAs, messages, message?, h]

theorem writtenAs_bufferPacket (bytes : Bytes) (result : Bool) :
    writtenAs TerminalPacket.terminalBuffer (messages [.wrote (bufferPacket bytes) result]) =
      [bufferPacket bytes] :=
  writtenAs_wrote result rfl

theorem writtenAs_infoPacket (ti : TerminalInfo) (result : Bool) :
    writtenAs TerminalPacket.terminalInfo (messages [.wrote (infoPacket ti) result]) =
      [infoPacket ti] :=
  writtenAs_wrote result rfl

theorem RunAnswer.Quiet.inputs {answer : RunAnswer} (h : answer.Quiet) : consoleInputs [answer] = [] := by
  rcases answer with _ | _ | _ | _ | _ | _ | _ | _ | _ | ⟨_ | _ | bytes⟩ | _ <;> first
    | rfl
    | exact h.elim

theorem RunAnswer.Quiet.sizes {answer : RunAnswer} (h : answer.Quiet) : consoleSizes [answer] = [] := by
  cases answer <;> first
    | rfl
    | exact h.elim

/-- The command as a packet, if there is one. -/
def commandPackets (opts : ClientOptions) : List Packet :=
  (opts.command.map (commandPacket opts)).toList

/-- Before the main loop nothing has come from the console. -/
structure Untouched (s : RunSession) (answers : List RunAnswer) (events : List RunEvent) : Prop where
  inputs : consoleInputs answers = []
  sizes : consoleSizes answers = []
  lastTi : s.lastTi = {}
  written : writtenAs TerminalPacket.terminalBuffer (messages events) = []
  infos : writtenAs TerminalPacket.terminalInfo (messages events) = []

/-- In the main loop all has gone out but what is owed. -/
structure Relayed (opts : ClientOptions) (s : RunSession) (answers : List RunAnswer)
    (events : List RunEvent) : Prop where
  inputs : writtenAs TerminalPacket.terminalBuffer (messages events)
      ++ s.pc.owedInput.map bufferPacket =
    commandPackets opts ++ (consoleInputs answers).map bufferPacket
  infos : writtenAs TerminalPacket.terminalInfo (messages events) ++ s.pc.owedInfo.map infoPacket =
    ((consoleSizes answers).changes {}).map infoPacket
  lastTi : s.lastTi = (consoleSizes answers).getLastD {}

/-- What was written is a beginning of what the console gave. -/
structure Faithful (opts : ClientOptions) (answers : List RunAnswer) (events : List RunEvent) :
    Prop where
  inputs : writtenAs TerminalPacket.terminalBuffer (messages events) <+:
    commandPackets opts ++ (consoleInputs answers).map bufferPacket
  infos : writtenAs TerminalPacket.terminalInfo (messages events) <+:
    ((consoleSizes answers).changes {}).map infoPacket

theorem Untouched.faithful {opts : ClientOptions} {s : RunSession} {answers : List RunAnswer}
    {events : List RunEvent} (h : Untouched s answers events) : Faithful opts answers events := by
  refine ⟨?_, ?_⟩
  · rw [h.written]
    exact List.nil_prefix
  · rw [h.infos]
    exact List.nil_prefix

theorem Relayed.faithful {opts : ClientOptions} {s : RunSession} {answers : List RunAnswer}
    {events : List RunEvent} (h : Relayed opts s answers events) : Faithful opts answers events :=
  ⟨⟨_, h.inputs⟩, ⟨_, h.infos⟩⟩

/-- What holds at a place. -/
def Passed (opts : ClientOptions) (s : RunSession) (answers : List RunAnswer)
    (events : List RunEvent) : Stage → Prop
  | .looping => Relayed opts s answers events
  | .ended => Faithful opts answers events
  | _ => Untouched s answers events

/-- The console and the connection so far. -/
structure Passes (memory : Memory) (opts : ClientOptions) (s : RunSession) (answers : List RunAnswer)
    (events : List RunEvent) : Prop where
  conversed : RunSession.Conversed memory opts s events
  passed : Passed opts s answers events s.pc.stage

section Step

variable {memory : Memory} {opts : ClientOptions} {s next : RunSession} {answer : RunAnswer}
  {answers : List RunAnswer} {before events : List RunEvent}

/-- A step that has nothing to do with the console, before the main loop. -/
theorem Untouched.keep (h : Untouched s answers before) (hti : next.lastTi = s.lastTi)
    (hquiet : answer.Quiet)
    (hwritten : writtenAs TerminalPacket.terminalBuffer (messages events) = [])
    (hinfos : writtenAs TerminalPacket.terminalInfo (messages events) = []) :
    Untouched next (answers ++ [answer]) (before ++ events) := by
  refine ⟨?_, ?_, hti.trans h.lastTi, ?_, ?_⟩
  · rw [inputs_concat, h.inputs, hquiet.inputs, List.append_nil]
  · rw [sizes_concat, h.sizes, hquiet.sizes, List.append_nil]
  · rw [messages_append, writtenAs_append, h.written, hwritten, List.append_nil]
  · rw [messages_append, writtenAs_append, h.infos, hinfos, List.append_nil]

theorem Untouched.relayed (h : Untouched s answers before) (hquits : s.pc.Quits)
    {written : List RunEvent} (hcommand : writtenAs TerminalPacket.terminalBuffer (messages written) =
      commandPackets opts)
    (hinfos : writtenAs TerminalPacket.terminalInfo (messages written) = []) :
    Relayed opts s answers (before ++ written) := by
  refine ⟨?_, ?_, ?_⟩
  · rw [messages_append, writtenAs_append, h.written, h.inputs, hcommand, hquits.1]
    rfl
  · rw [messages_append, writtenAs_append, h.infos, h.sizes, hinfos, hquits.2]
    rfl
  · rw [h.lastTi, h.sizes]
    rfl

/-- A step of the main loop. -/
theorem Relayed.step (h : Relayed opts s answers before)
    (hinputs : writtenAs TerminalPacket.terminalBuffer (messages events)
        ++ next.pc.owedInput.map bufferPacket =
      s.pc.owedInput.map bufferPacket ++ (consoleInputs [answer]).map bufferPacket)
    (hinfos : writtenAs TerminalPacket.terminalInfo (messages events)
        ++ next.pc.owedInfo.map infoPacket =
      s.pc.owedInfo.map infoPacket
        ++ ((consoleSizes [answer]).filter fun ti => s.lastTi ≠ ti).map infoPacket)
    (hti : next.lastTi = (consoleSizes [answer]).getLastD s.lastTi) :
    Relayed opts next (answers ++ [answer]) (before ++ events) := by
  have hsizes : consoleSizes [answer] = [] ∨ ∃ ti, consoleSizes [answer] = [ti] := by
    cases answer <;> first
      | exact .inl rfl
      | exact .inr ⟨_, rfl⟩
  refine ⟨?_, ?_, ?_⟩
  · rw [messages_append, writtenAs_append, List.append_assoc, hinputs, ← List.append_assoc, h.inputs,
      inputs_concat, List.map_append, List.append_assoc]
  · rw [messages_append, writtenAs_append, List.append_assoc, hinfos, ← List.append_assoc, h.infos,
      sizes_concat]
    rcases hsizes with hnone | ⟨ti, hone⟩
    · rw [hnone]
      simp
    · rw [hone, List.changes_concat, ← h.lastTi, List.map_append]
      by_cases hsame : s.lastTi = ti <;> simp [hsame]
  · rw [hti, sizes_concat]
    rcases hsizes with hnone | ⟨ti, hone⟩
    · rw [hnone, List.append_nil, h.lastTi]
      rfl
    · rw [hone, List.getLastD_concat]
      rfl

theorem Untouched.onConsole (h : Untouched next answers before) (hpc : next.pc = opts.onConsole) :
    Passed opts next answers before next.pc.stage := by
  rcases opts.onConsole_cases with ⟨command, hcommand, hconsole⟩ | ⟨hcommand, hconsole⟩
  · rw [hpc, hconsole]
    exact h
  · have hquits : next.pc.Quits := by
      rw [hpc, hconsole]
      exact ⟨rfl, rfl⟩
    rw [hpc, hconsole]
    have hnothing : writtenAs TerminalPacket.terminalBuffer (messages []) = commandPackets opts := by
      rw [commandPackets, hcommand]
      rfl
    have hrelayed := h.relayed hquits hnothing rfl
    rwa [List.append_nil] at hrelayed

theorem keepAlive_ne_buffer : keepAlivePacket.header ≠ TerminalPacket.terminalBuffer := by decide

theorem keepAlive_ne_info : keepAlivePacket.header ≠ TerminalPacket.terminalInfo := by decide

theorem passed_step (h : Passes memory opts s answers before)
    (hstep : runMachine memory s answer = some (next, events)) :
    Passed opts next (answers ++ [answer]) (before ++ events) next.pc.stage := by
  have hopts := h.conversed.opts_eq
  have hpassed := h.passed
  cases RunSession.talks_spec hstep with
  | @payload result pc hpc hstage hquits =>
      rw [hpc] at hpassed
      have huntouched : Untouched { s with pc } (answers ++ [.wrote result])
          (before ++ [.wrote (initialPacket s.opts) result]) :=
        Untouched.keep hpassed rfl trivial
          (writtenAs_wrote_other result (show EtPacket.initialPayload ≠ _ by decide))
          (writtenAs_wrote_other result (show EtPacket.initialPayload ≠ _ by decide))
      rcases hstage with hawaiting | hended
      · rw [show ({ s with pc } : RunSession).pc.stage = .awaiting from hawaiting]
        exact huntouched
      · rw [show ({ s with pc } : RunSession).pc.stage = .ended from hended]
        exact huntouched.faithful
  | @response deadline packet hpc =>
      rw [hpc] at hpassed
      have huntouched : ∀ pc, Untouched { s with pc } (answers ++ [.read packet])
          (before ++ packet.toList.map .responded) := by
        intro pc
        refine Untouched.keep hpassed rfl trivial ?_ ?_ <;> cases packet <;> rfl
      cases packet with
      | none => exact huntouched _
      | some packet =>
          rcases s.opts.onResponse_cases memory deadline packet with ⟨-, hpc'⟩ | hended
          · rcases s.opts.onEstablished_cases with hopening | hconsole
            · have hnext := hpc'.trans hopening
              dsimp only
              rw [hnext]
              exact huntouched _
            · exact (huntouched _).onConsole (hopts ▸ hpc'.trans hconsole)
          · dsimp only
            rw [hended]
            exact (huntouched .crashed).faithful
  | @opens result pc hpc hnext =>
      rw [hpc] at hpassed
      have huntouched : Untouched { s with pc } (answers ++ [.opened result]) (before ++ []) :=
        Untouched.keep hpassed rfl trivial rfl rfl
      rcases hnext with hconsole | hended
      · exact huntouched.onConsole (hopts ▸ hconsole)
      · dsimp only
        rw [hended]
        exact huntouched.faithful
  | @command command result hpc =>
      have hcommand := h.conversed.command command hpc
      rw [hpc] at hpassed
      have huntouched : Untouched { s with pc := .arming } (answers ++ [.wrote result]) (before ++ []) :=
        Untouched.keep hpassed rfl trivial rfl rfl
      rw [List.append_nil] at huntouched
      refine huntouched.relayed ⟨rfl, rfl⟩ ?_ ?_
      · rw [commandPackets, hcommand, hopts]
        exact writtenAs_bufferPacket _ result
      · exact writtenAs_wrote_other result (show TerminalPacket.terminalBuffer ≠ _ by decide)
  | @input bytes hpc =>
      rw [hpc] at hpassed
      refine Relayed.step hpassed ?_ ?_ rfl
      · rw [hpc]
        rfl
      · rw [hpc]
        rfl
  | @sendsInput bytes result hpc =>
      rw [hpc] at hpassed
      refine Relayed.step hpassed ?_ ?_ rfl
      · rw [hpc, writtenAs_bufferPacket]
        rfl
      · rw [hpc, writtenAs_wrote_other result (show TerminalPacket.terminalBuffer ≠ _ by decide)]
        rfl
  | @sameSize ti hpc hsame =>
      rw [hpc] at hpassed
      refine Relayed.step hpassed ?_ ?_ hsame.symm
      · rw [hpc]
        rfl
      · rw [hpc]
        simp [consoleSizes, messages, writtenAs, RunPc.owedInfo, hsame]
  | @newSize ti hpc hnew =>
      rw [hpc] at hpassed
      refine Relayed.step hpassed ?_ ?_ rfl
      · rw [hpc]
        rfl
      · rw [hpc]
        simp [consoleSizes, messages, writtenAs, RunPc.owedInfo, Ne.symm hnew]
  | @sendsInfo ti result hpc =>
      rw [hpc] at hpassed
      refine Relayed.step hpassed ?_ ?_ rfl
      · rw [hpc, writtenAs_wrote_other result (show TerminalPacket.terminalInfo ≠ _ by decide)]
        rfl
      · rw [hpc, writtenAs_infoPacket]
        rfl
  | @sendsKeepalive result hpc =>
      rw [hpc] at hpassed
      dsimp only
      rw [RunSession.onLocal_stage]
      obtain ⟨hinput, hinfo⟩ := RunSession.onLocal_quits s.opts
      refine Relayed.step hpassed ?_ ?_ rfl
      · rw [hpc, writtenAs_wrote_other result keepAlive_ne_buffer, hinput]
        rfl
      · rw [hpc, writtenAs_wrote_other result keepAlive_ne_info, hinfo]
        rfl
  | @reads coalesced packet hpc =>
      rw [hpc] at hpassed
      obtain ⟨hstage, ⟨hinput, hinfo⟩, -, hti⟩ := s.onPacket_cases memory coalesced packet
      have hrelayed : Relayed opts (s.onPacket memory coalesced packet)
          (answers ++ [.read (some packet)]) (before ++ [.read packet]) := by
        refine Relayed.step hpassed ?_ ?_ hti
        · rw [hpc, hinput]
          rfl
        · rw [hpc, hinfo]
          rfl
      rcases hstage with hlooping | hended
      · rw [hlooping]
        exact hrelayed
      · rw [hended]
        exact hrelayed.faithful
  | silent hstage hstage' hquits hquits' hlocal hti hsame hnone hquiet =>
      rcases hstage with hawaiting | hlooping
      · rw [hawaiting] at hpassed hstage'
        have huntouched : Untouched next (answers ++ [answer]) (before ++ events) :=
          Untouched.keep hpassed hti hquiet (by rw [hnone]; rfl) (by rw [hnone]; rfl)
        rcases hstage' with hawaiting' | hended
        · rw [hawaiting']
          exact huntouched
        · rw [hended]
          exact huntouched.faithful
      · rw [hlooping] at hpassed hstage'
        have hrelayed : Relayed opts next (answers ++ [answer]) (before ++ events) := by
          refine Relayed.step hpassed ?_ ?_ ?_
          · rw [hnone, hquits.1, hquits'.1, hquiet.inputs]
            rfl
          · rw [hnone, hquits.2, hquits'.2, hquiet.sizes]
            rfl
          · rw [hquiet.sizes]
            exact hti
        rcases hstage' with hlooping' | hended
        · rw [hlooping']
          exact hrelayed
        · rw [hended]
          exact hrelayed.faithful

end Step

theorem start_passes (memory : Memory) (opts : ClientOptions) :
    Passes memory opts (RunSession.start opts) [] [] :=
  ⟨RunSession.start_conversed memory opts, ⟨rfl, rfl, rfl, rfl, rfl⟩⟩

/-- **The console and the server.** The `TERMINAL_BUFFER` packets that `run_session` has written are at
every moment a beginning of the command and the local input as it was read, and its `TERMINAL_INFO`
packets a beginning of the sizes that differ from the one before. Whenever the main loop starts over,
nothing is missing, and the last size that the console gave is the one it remembers. -/
theorem console_relayed {memory : Memory} {opts : ClientOptions} {answers : List RunAnswer}
    {s : RunSession} {events : List RunEvent}
    (hrun : (runMachine memory).run (RunSession.start opts) answers = some (s, events)) :
    writtenAs TerminalPacket.terminalBuffer (messages events) <+:
        commandPackets opts ++ (consoleInputs answers).map bufferPacket
      ∧ writtenAs TerminalPacket.terminalInfo (messages events) <+:
        ((consoleSizes answers).changes {}).map infoPacket
      ∧ (s.pc = .loopHead →
        writtenAs TerminalPacket.terminalBuffer (messages events) =
            commandPackets opts ++ (consoleInputs answers).map bufferPacket
          ∧ writtenAs TerminalPacket.terminalInfo (messages events) =
            ((consoleSizes answers).changes {}).map infoPacket
          ∧ s.lastTi = (consoleSizes answers).getLastD {}) := by
  have hpasses := (runMachine memory).run_invariant_actions (I := Passes memory opts)
    (fun h hstep => ⟨RunSession.conversed_step h.conversed hstep, passed_step h hstep⟩) [] []
    (start_passes memory opts) hrun
  have hpassed := hpasses.passed
  have hfaithful : Faithful opts answers events := by
    cases hstage : s.pc.stage <;> rw [hstage] at hpassed
    · exact Untouched.faithful hpassed
    · exact Untouched.faithful hpassed
    · exact Untouched.faithful hpassed
    · exact Relayed.faithful hpassed
    · exact hpassed
  refine ⟨hfaithful.inputs, hfaithful.infos, fun hpc => ?_⟩
  have hquits : s.pc.Quits := hpc ▸ ⟨rfl, rfl⟩
  rw [hpc] at hpassed
  obtain ⟨hinputs, hinfos, hti⟩ := (hpassed : Relayed opts s answers events)
  rw [hquits.1, List.map_nil, List.append_nil] at hinputs
  rw [hquits.2, List.map_nil, List.append_nil] at hinfos
  exact ⟨hinputs, hinfos, hti⟩

/-- One round with a key pressed and the size of the terminal. -/
theorem console_relayed_round :
    let memory : Memory := fun len => len ≤ maxProtoBytes
    let ti : TerminalInfo := { row := some 24, column := some 80 }
    let answers : List RunAnswer :=
      [.wrote true, .now 0, .now 0, .read (some (Packet.new EtPacket.initialResponse [])),
        .opened (.ok ()), .now 0, .shuttingDown false, .shutdown false, .hasSocket false,
        .input (.ok (some [0x61])), .wrote true, .now 0, .size ti, .wrote true]
    ∃ s events, (runMachine memory).run (RunSession.start {}) answers = some (s, events)
      ∧ writtenAs TerminalPacket.terminalBuffer (messages events) = [bufferPacket [0x61]]
      ∧ s.lastTi = ti := by
  intro memory ti answers
  have hran : ((runMachine memory).run (RunSession.start {}) answers).map (fun out => out.1.pc) =
      some .loopHead := by
    decide +kernel
  obtain ⟨⟨s, events⟩, hrun, hpc⟩ := Option.map_eq_some_iff.mp hran
  obtain ⟨hwritten, -, hti⟩ := (console_relayed hrun).2.2 hpc
  exact ⟨s, events, hrun, hwritten, hti⟩

end EternalTerminal
