import EternalTerminal.Session.RunLoop

/-!
# What the session loop says and hears

`run_session` opens with an `INITIAL_PAYLOAD`, says nothing more until it has read an `INITIAL_RESPONSE`
without an error, then writes the command, and from then on only keepalives, local input and the size of
the terminal. The rest of the development knows what a step writes and reads through the cases of
`Talks`.
-/

namespace EternalTerminal

/-- The parts of `run_session`. -/
inductive Stage where
  | opening
  | awaiting
  /-- Established, before the command is written. -/
  | setup
  | looping
  | ended
  deriving DecidableEq

namespace RunPc

def stage : RunPc → Stage
  | .sendingPayload => .opening
  | .startingWait => .awaiting
  | .waiting _ => .awaiting
  | .awaitingResponse _ => .awaiting
  | .openingConsole => .setup
  | .sendingCommand _ => .setup
  | .returned _ => .ended
  | .crashed => .ended
  | _ => .looping

/-- Local input that is read and not yet written. -/
def owedInput : RunPc → List Bytes
  | .sendingInput bytes => [bytes]
  | _ => []

/-- A size that is read and not yet written. -/
def owedInfo : RunPc → List TerminalInfo
  | .sendingInfo ti => [ti]
  | _ => []

/-- Places that need a console. -/
def Local : RunPc → Prop
  | .polling => True
  | .sendingInput _ => True
  | .rearmingInput => True
  | .sizing => True
  | .sendingInfo _ => True
  | _ => False

/-- Nothing is owed at the place. -/
def Quits (pc : RunPc) : Prop := pc.owedInput = [] ∧ pc.owedInfo = []

theorem ne_sendingCommand {pc : RunPc} (h : pc.stage ≠ .setup) (command : String) :
    pc ≠ .sendingCommand command := by
  rintro rfl
  exact h rfl

theorem not_local_of_awaiting {pc : RunPc} (h : pc.stage = .awaiting) : ¬ pc.Local := by
  cases pc <;> simp [stage, Local] at h ⊢

theorem not_local_of_ended {pc : RunPc} (h : pc.stage = .ended) : ¬ pc.Local := by
  cases pc <;> simp [stage, Local] at h ⊢

end RunPc

/-- A packet as the server sees it: from the client, or to it. -/
inductive Message where
  | out (packet : Packet)
  | in_ (packet : Packet)
  deriving DecidableEq

/-- The console gives neither input nor a size. -/
def RunAnswer.Quiet : RunAnswer → Prop
  | .input (.ok (some _)) => False
  | .size _ => False
  | _ => True

namespace RunEvent

def message? : RunEvent → Option Message
  | .wrote packet _ => some (.out packet)
  | .responded packet => some (.in_ packet)
  | .read packet => some (.in_ packet)
  | _ => none

/-- The packets written and read, in order. -/
def messages (events : List RunEvent) : List Message := events.filterMap message?

theorem messages_append (before after : List RunEvent) :
    messages (before ++ after) = messages before ++ messages after :=
  List.filterMap_append

end RunEvent

open RunEvent

namespace RunSession

/-- The ways a step can go, as far as packets are written and read or the console is asked. -/
inductive Talks (memory : Memory) (s : RunSession) : RunAnswer → RunSession → List RunEvent → Prop
  | payload {result pc} : s.pc = .sendingPayload → pc.stage = .awaiting ∨ pc.stage = .ended →
      pc.Quits → Talks memory s (.wrote result) { s with pc } [.wrote (initialPacket s.opts) result]
  | response {deadline packet} : s.pc = .awaitingResponse deadline →
      Talks memory s (.read packet) { s with pc := s.opts.onResponse memory deadline packet }
        (packet.toList.map .responded)
  | opens {result pc} : s.pc = .openingConsole → pc = s.opts.onConsole ∨ pc.stage = .ended →
      Talks memory s (.opened result) { s with pc } []
  | command {command result} : s.pc = .sendingCommand command → Talks memory s (.wrote result)
      { s with pc := .arming } [.wrote (commandPacket s.opts command) result]
  | input {bytes} : s.pc = .polling →
      Talks memory s (.input (.ok (some bytes))) { s with pc := .sendingInput bytes } []
  | sendsInput {bytes result} : s.pc = .sendingInput bytes → Talks memory s (.wrote result)
      { s with pc := .rearmingInput } [.wrote (bufferPacket bytes) result]
  | sameSize {ti} : s.pc = .sizing → ti = s.lastTi →
      Talks memory s (.size ti) { s with pc := .loopHead } []
  | newSize {ti} : s.pc = .sizing → ti ≠ s.lastTi →
      Talks memory s (.size ti) { s with pc := .sendingInfo ti, lastTi := ti } []
  | sendsInfo {ti result} : s.pc = .sendingInfo ti →
      Talks memory s (.wrote result) { s with pc := .loopHead } [.wrote (infoPacket ti) result]
  | sendsKeepalive {result} : s.pc = .sendingKeepalive → Talks memory s (.wrote result)
      { s with pc := s.opts.onLocal, waitingOnKeepalive := true } [.wrote keepAlivePacket result]
  | reads {coalesced packet} : s.pc = .draining coalesced →
      Talks memory s (.read (some packet)) (s.onPacket memory coalesced packet) [.read packet]
  /-- Nothing is written or read, and the console gives neither input nor a size. -/
  | silent {answer next events} : s.pc.stage = .awaiting ∨ s.pc.stage = .looping →
      next.pc.stage = s.pc.stage ∨ next.pc.stage = .ended → s.pc.Quits → next.pc.Quits →
      (next.pc.Local → s.pc.Local ∨ s.opts.noTerminal = false) → next.lastTi = s.lastTi →
      next.opts = s.opts → messages events = [] → answer.Quiet → Talks memory s answer next events

variable {memory : Memory} {s next : RunSession} {answer : RunAnswer} {events : List RunEvent}

theorem onLocal_stage (opts : ClientOptions) : opts.onLocal.stage = .looping := by
  unfold ClientOptions.onLocal
  split_ifs <;> rfl

theorem onLocal_quits (opts : ClientOptions) : opts.onLocal.Quits := by
  unfold ClientOptions.onLocal
  split_ifs <;> exact ⟨rfl, rfl⟩

theorem onLocal_local {opts : ClientOptions} (h : opts.onLocal.Local) : opts.noTerminal = false := by
  unfold ClientOptions.onLocal at h
  split_ifs at h with hno
  · exact absurd h id
  · simpa using hno

theorem Talks.passes (hpc : s.pc.stage = .looping) (hquits : s.pc.Quits)
    (hnext : next.pc.stage = .looping ∨ next.pc.stage = .ended) (hquits' : next.pc.Quits)
    (hlocal : next.pc.Local → s.pc.Local ∨ s.opts.noTerminal = false)
    (hti : next.lastTi = s.lastTi) (hopts : next.opts = s.opts) (hmessages : messages events = [])
    (hanswer : answer.Quiet) : Talks memory s answer next events := by
  refine .silent (.inr hpc) ?_ hquits hquits' hlocal hti hopts hmessages hanswer
  rw [hpc]
  exact hnext

theorem onDrained_passes (opts : ClientOptions) (coalesced : Bytes) :
    (opts.onDrained coalesced).stage = .looping ∧ (opts.onDrained coalesced).Quits
      ∧ ¬ (opts.onDrained coalesced).Local := by
  unfold ClientOptions.onDrained
  split_ifs
  · exact ⟨rfl, ⟨rfl, rfl⟩, id⟩
  · exact ⟨rfl, ⟨rfl, rfl⟩, id⟩

theorem talks_spec (h : runMachine memory s answer = some (next, events)) :
    Talks memory s answer next events := by
  unfold runMachine at h
  cases hpc : s.pc with
  | sendingPayload =>
      rw [hpc] at h
      cases answer <;> simp only [runStep, Option.some.injEq, Prod.mk.injEq, reduceCtorEq] at h
      obtain ⟨rfl, rfl⟩ := h
      refine .payload hpc ?_ ?_ <;> split_ifs
      · exact .inl rfl
      · exact .inr rfl
      · exact ⟨rfl, rfl⟩
      · exact ⟨rfl, rfl⟩
  | startingWait =>
      rw [hpc] at h
      cases answer <;> simp only [runStep, reduceCtorEq] at h
      obtain ⟨-, rfl, rfl⟩ := tick_eq_some h
      exact .silent (.inl (hpc ▸ rfl)) (.inl (hpc ▸ rfl)) (hpc ▸ ⟨rfl, rfl⟩) ⟨rfl, rfl⟩
        (fun hlocal => absurd hlocal id) rfl rfl rfl trivial
  | waiting deadline =>
      rw [hpc] at h
      cases answer <;> simp only [runStep, reduceCtorEq] at h
      obtain ⟨-, rfl, rfl⟩ := tick_eq_some h
      split_ifs
      · exact .silent (.inl (hpc ▸ rfl)) (.inl (hpc ▸ rfl)) (hpc ▸ ⟨rfl, rfl⟩) ⟨rfl, rfl⟩
          (fun hlocal => absurd hlocal id) rfl rfl rfl trivial
      · exact .silent (.inl (hpc ▸ rfl)) (.inr rfl) (hpc ▸ ⟨rfl, rfl⟩) ⟨rfl, rfl⟩
          (fun hlocal => absurd hlocal id) rfl rfl rfl trivial
  | awaitingResponse deadline =>
      rw [hpc] at h
      cases answer <;> simp only [runStep, Option.some.injEq, Prod.mk.injEq, reduceCtorEq] at h
      obtain ⟨rfl, rfl⟩ := h
      exact .response hpc
  | openingConsole =>
      rw [hpc] at h
      rcases answer with _ | _ | _ | _ | _ | _ | _ | ⟨e | _⟩ | _ | _ | _ <;>
        simp only [runStep, Option.some.injEq, Prod.mk.injEq, reduceCtorEq] at h <;>
        obtain ⟨rfl, rfl⟩ := h
      · exact .opens hpc (.inr rfl)
      · exact .opens hpc (.inl rfl)
  | sendingCommand command =>
      rw [hpc] at h
      cases answer <;> simp only [runStep, Option.some.injEq, Prod.mk.injEq, reduceCtorEq] at h
      obtain ⟨rfl, rfl⟩ := h
      exact .command hpc
  | arming =>
      rw [hpc] at h
      cases answer <;> simp only [runStep, reduceCtorEq] at h
      obtain ⟨-, rfl, rfl⟩ := tick_eq_some h
      exact .passes (hpc ▸ rfl) (hpc ▸ ⟨rfl, rfl⟩) (.inl rfl) ⟨rfl, rfl⟩
        (fun hlocal => absurd hlocal id) rfl rfl rfl trivial
  | loopHead =>
      rw [hpc] at h
      rcases answer with _ | _ | _ | _ | ⟨_ | _⟩ | _ | _ | _ | _ | _ | _ <;>
        simp only [runStep, Option.some.injEq, Prod.mk.injEq, reduceCtorEq] at h <;>
        obtain ⟨rfl, rfl⟩ := h
      · exact .passes (hpc ▸ rfl) (hpc ▸ ⟨rfl, rfl⟩) (.inl rfl) ⟨rfl, rfl⟩
          (fun hlocal => absurd hlocal id) rfl rfl rfl trivial
      · exact .passes (hpc ▸ rfl) (hpc ▸ ⟨rfl, rfl⟩) (.inr rfl) ⟨rfl, rfl⟩
          (fun hlocal => absurd hlocal id) rfl rfl rfl trivial
  | checkingFlag =>
      rw [hpc] at h
      cases answer <;> simp only [runStep, Option.some.injEq, Prod.mk.injEq, reduceCtorEq] at h
      obtain ⟨rfl, rfl⟩ := h
      split_ifs
      · exact .passes (hpc ▸ rfl) (hpc ▸ ⟨rfl, rfl⟩) (.inr rfl) ⟨rfl, rfl⟩
          (fun hlocal => absurd hlocal id) rfl rfl rfl trivial
      · exact .passes (hpc ▸ rfl) (hpc ▸ ⟨rfl, rfl⟩) (.inl rfl) ⟨rfl, rfl⟩
          (fun hlocal => absurd hlocal id) rfl rfl rfl trivial
  | checkingSocket =>
      rw [hpc] at h
      rcases answer with _ | _ | _ | _ | _ | _ | ⟨_ | _⟩ | _ | _ | _ | _ <;>
        simp only [runStep, Option.some.injEq, Prod.mk.injEq, reduceCtorEq] at h <;>
        obtain ⟨rfl, rfl⟩ := h
      · exact .passes (hpc ▸ rfl) (hpc ▸ ⟨rfl, rfl⟩) (.inl (onLocal_stage _)) (onLocal_quits _)
          (fun hlocal => .inr (onLocal_local hlocal)) rfl rfl rfl trivial
      · exact .passes (hpc ▸ rfl) (hpc ▸ ⟨rfl, rfl⟩) (.inl rfl) ⟨rfl, rfl⟩
          (fun hlocal => absurd hlocal id) rfl rfl rfl trivial
  | draining coalesced =>
      rw [hpc] at h
      rcases answer with _ | _ | ⟨_ | _⟩ | _ | _ | _ | _ | _ | _ | _ | _ <;>
        simp only [runStep, Option.some.injEq, Prod.mk.injEq, reduceCtorEq] at h <;>
        obtain ⟨rfl, rfl⟩ := h
      · obtain ⟨hstage, hquits, hlocal⟩ := onDrained_passes s.opts coalesced
        exact .passes (hpc ▸ rfl) (hpc ▸ ⟨rfl, rfl⟩) (.inl hstage) hquits
          (fun hgiven => absurd hgiven hlocal) rfl rfl rfl trivial
      · exact .reads hpc
  | rearmingOutput coalesced =>
      rw [hpc] at h
      cases answer <;> simp only [runStep, reduceCtorEq] at h
      obtain ⟨-, rfl, rfl⟩ := tick_eq_some h
      exact .passes (hpc ▸ rfl) (hpc ▸ ⟨rfl, rfl⟩) (.inl rfl) ⟨rfl, rfl⟩
        (fun hlocal => absurd hlocal id) rfl rfl rfl trivial
  | showing coalesced =>
      rw [hpc] at h
      rcases answer with _ | _ | _ | _ | _ | _ | _ | _ | ⟨e | _⟩ | _ | _ <;>
        simp only [runStep, Option.some.injEq, Prod.mk.injEq, reduceCtorEq] at h <;>
        obtain ⟨rfl, rfl⟩ := h
      · exact .passes (hpc ▸ rfl) (hpc ▸ ⟨rfl, rfl⟩) (.inr rfl) ⟨rfl, rfl⟩
          (fun hlocal => absurd hlocal id) rfl rfl rfl trivial
      · exact .passes (hpc ▸ rfl) (hpc ▸ ⟨rfl, rfl⟩) (.inl rfl) ⟨rfl, rfl⟩
          (fun hlocal => absurd hlocal id) rfl rfl rfl trivial
  | checkingDeadline =>
      rw [hpc] at h
      cases answer <;> simp only [runStep, reduceCtorEq] at h
      obtain ⟨-, rfl, rfl⟩ := tick_eq_some h
      split_ifs
      · exact .passes (hpc ▸ rfl) (hpc ▸ ⟨rfl, rfl⟩) (.inl rfl) ⟨rfl, rfl⟩
          (fun hlocal => absurd hlocal id) rfl rfl rfl trivial
      · exact .passes (hpc ▸ rfl) (hpc ▸ ⟨rfl, rfl⟩) (.inl (onLocal_stage _)) (onLocal_quits _)
          (fun hlocal => .inr (onLocal_local hlocal)) rfl rfl rfl trivial
  | rearmingKeepalive =>
      rw [hpc] at h
      cases answer <;> simp only [runStep, reduceCtorEq] at h
      obtain ⟨-, rfl, rfl⟩ := tick_eq_some h
      split_ifs
      · exact .passes (hpc ▸ rfl) (hpc ▸ ⟨rfl, rfl⟩) (.inl rfl) ⟨rfl, rfl⟩
          (fun hlocal => absurd hlocal id) rfl rfl rfl trivial
      · exact .passes (hpc ▸ rfl) (hpc ▸ ⟨rfl, rfl⟩) (.inl rfl) ⟨rfl, rfl⟩
          (fun hlocal => absurd hlocal id) rfl rfl rfl trivial
  | forcing =>
      rw [hpc] at h
      cases answer <;> simp only [runStep, Option.some.injEq, Prod.mk.injEq, reduceCtorEq] at h
      obtain ⟨rfl, rfl⟩ := h
      exact .passes (hpc ▸ rfl) (hpc ▸ ⟨rfl, rfl⟩) (.inl (onLocal_stage _)) (onLocal_quits _)
        (fun hlocal => .inr (onLocal_local hlocal)) rfl rfl rfl trivial
  | sendingKeepalive =>
      rw [hpc] at h
      cases answer <;> simp only [runStep, Option.some.injEq, Prod.mk.injEq, reduceCtorEq] at h
      obtain ⟨rfl, rfl⟩ := h
      exact .sendsKeepalive hpc
  | polling =>
      rw [hpc] at h
      rcases answer with _ | _ | _ | _ | _ | _ | _ | _ | _ | ⟨e | _ | bytes⟩ | _ <;>
        simp only [runStep, Option.some.injEq, Prod.mk.injEq, reduceCtorEq] at h <;>
        obtain ⟨rfl, rfl⟩ := h
      · exact .passes (hpc ▸ rfl) (hpc ▸ ⟨rfl, rfl⟩) (.inr rfl) ⟨rfl, rfl⟩
          (fun hlocal => absurd hlocal id) rfl rfl rfl trivial
      · exact .passes (hpc ▸ rfl) (hpc ▸ ⟨rfl, rfl⟩) (.inl rfl) ⟨rfl, rfl⟩
          (fun _ => .inl (hpc ▸ trivial)) rfl rfl rfl trivial
      · exact .input hpc
  | sendingInput bytes =>
      rw [hpc] at h
      cases answer <;> simp only [runStep, Option.some.injEq, Prod.mk.injEq, reduceCtorEq] at h
      obtain ⟨rfl, rfl⟩ := h
      exact .sendsInput hpc
  | rearmingInput =>
      rw [hpc] at h
      cases answer <;> simp only [runStep, reduceCtorEq] at h
      obtain ⟨-, rfl, rfl⟩ := tick_eq_some h
      exact .passes (hpc ▸ rfl) (hpc ▸ ⟨rfl, rfl⟩) (.inl rfl) ⟨rfl, rfl⟩
        (fun _ => .inl (hpc ▸ trivial)) rfl rfl rfl trivial
  | sizing =>
      rw [hpc] at h
      cases answer <;> simp only [runStep, reduceCtorEq] at h
      split_ifs at h with hsame <;> obtain ⟨rfl, rfl⟩ := Prod.mk.inj (Option.some.inj h)
      · exact .sameSize hpc hsame
      · exact .newSize hpc hsame
  | sendingInfo ti =>
      rw [hpc] at h
      cases answer <;> simp only [runStep, Option.some.injEq, Prod.mk.injEq, reduceCtorEq] at h
      obtain ⟨rfl, rfl⟩ := h
      exact .sendsInfo hpc
  | pausing =>
      rw [hpc] at h
      cases answer <;> simp only [runStep, Option.some.injEq, Prod.mk.injEq, reduceCtorEq] at h
      obtain ⟨rfl, rfl⟩ := h
      exact .passes (hpc ▸ rfl) (hpc ▸ ⟨rfl, rfl⟩) (.inl rfl) ⟨rfl, rfl⟩
        (fun hlocal => absurd hlocal id) rfl rfl rfl trivial
  | returned result =>
      rw [hpc] at h
      simp [runStep] at h
  | crashed =>
      rw [hpc] at h
      simp [runStep] at h

end RunSession

/-! ### The conversation -/

/-- An `INITIAL_RESPONSE` that opens the session. -/
def Packet.Accepts (memory : Memory) (packet : Packet) : Prop :=
  packet.header = EtPacket.initialResponse
    ∧ ∃ resp : InitialResponse, ProtoMessage.decode memory packet.payload = .ok resp
      ∧ (resp.error.getD "").isEmpty = true

namespace Message

/-- What is written and read in the main loop. -/
def OfLoop (opts : ClientOptions) : Message → Prop
  | .in_ _ => True
  | .out packet => packet = keepAlivePacket ∨ (opts.noTerminal = false
      ∧ ((∃ bytes, packet = bufferPacket bytes) ∨ ∃ ti, packet = infoPacket ti))

/-- The command, if there is one. -/
def command (opts : ClientOptions) : List Message :=
  (opts.command.map fun command => .out (commandPacket opts command)).toList

/-- What a session that is established has written and read. -/
def Established (memory : Memory) (opts : ClientOptions) (messages : List Message) : Prop :=
  ∃ response loop, response.Accepts memory
    ∧ messages = .out (initialPacket opts) :: .in_ response :: (command opts ++ loop)
    ∧ ∀ message ∈ loop, message.OfLoop opts

/-- What a session has written and read at any moment. -/
def WellFormed (memory : Memory) (opts : ClientOptions) (messages : List Message) : Prop :=
  messages = [] ∨ messages = [.out (initialPacket opts)]
    ∨ (∃ response, messages = [.out (initialPacket opts), .in_ response])
    ∨ Established memory opts messages

end Message

open Message

namespace ClientOptions

theorem onConsole_cases (opts : ClientOptions) :
    (∃ command, opts.command = some command ∧ opts.onConsole = .sendingCommand command)
      ∨ (opts.command = none ∧ opts.onConsole = .arming) := by
  unfold onConsole
  cases opts.command with
  | none => exact .inr ⟨rfl, rfl⟩
  | some command => exact .inl ⟨command, rfl, rfl⟩

theorem onEstablished_cases (opts : ClientOptions) :
    opts.onEstablished = .openingConsole ∨ opts.onEstablished = opts.onConsole := by
  unfold onEstablished
  split_ifs
  · exact .inr rfl
  · exact .inl rfl

/-- Only an accepted response leads on. -/
theorem onResponse_cases (memory : Memory) (opts : ClientOptions) (deadline : Instant)
    (packet : Packet) :
    (packet.Accepts memory ∧ opts.onResponse memory deadline (some packet) = opts.onEstablished)
      ∨ (opts.onResponse memory deadline (some packet)).stage = .ended := by
  simp only [onResponse]
  split_ifs with hheader
  · exact .inr rfl
  · rw [ne_eq, not_not] at hheader
    split
    · exact .inr rfl
    · exact .inr rfl
    · next resp hdecode =>
        split
        · next err herror =>
            split_ifs with hempty
            · exact .inl ⟨⟨hheader, resp, hdecode, by simpa [herror] using hempty⟩, rfl⟩
            · exact .inr rfl
        · next hnone => exact .inl ⟨⟨hheader, resp, hdecode, by simp [hnone]⟩, rfl⟩

end ClientOptions

namespace RunSession

/-- What was written and read when the session is at a place. -/
def Said (memory : Memory) (opts : ClientOptions) (messages : List Message) : Stage → Prop
  | .opening => messages = []
  | .awaiting => messages = [.out (initialPacket opts)]
  | .setup => ∃ response, response.Accepts memory
      ∧ messages = [.out (initialPacket opts), .in_ response]
  | .looping => Established memory opts messages
  | .ended => WellFormed memory opts messages

theorem Said.wellFormed {memory : Memory} {opts : ClientOptions} {messages : List Message}
    {stage : Stage} (h : Said memory opts messages stage) : WellFormed memory opts messages := by
  cases stage with
  | opening => exact .inl h
  | awaiting => exact .inr (.inl h)
  | setup =>
      obtain ⟨response, -, hmessages⟩ := h
      exact .inr (.inr (.inl ⟨response, hmessages⟩))
  | looping => exact .inr (.inr (.inr h))
  | ended => exact h

/-- The conversation so far, and what the place knows of the options. -/
structure Conversed (memory : Memory) (opts : ClientOptions) (s : RunSession)
    (events : List RunEvent) : Prop where
  opts_eq : s.opts = opts
  said : Said memory opts (messages events) s.pc.stage
  command : ∀ command, s.pc = .sendingCommand command → opts.command = some command
  console : s.pc.Local → opts.noTerminal = false

variable {memory : Memory} {opts : ClientOptions} {s next : RunSession} {answer : RunAnswer}
  {before events : List RunEvent}

theorem conversed_onConsole {after : List RunEvent} (hopts : next.opts = opts)
    (hpc : next.pc = opts.onConsole) {response : Packet} (hresponse : response.Accepts memory)
    (hmessages : messages after = [.out (initialPacket opts), .in_ response]) :
    Conversed memory opts next after := by
  rcases opts.onConsole_cases with ⟨command, hcommand, hconsole⟩ | ⟨hcommand, hconsole⟩
  · rw [hconsole] at hpc
    refine ⟨hopts, ?_, fun other hother => ?_, fun hlocal => ?_⟩
    · rw [hpc]
      exact ⟨response, hresponse, hmessages⟩
    · obtain rfl := RunPc.sendingCommand.inj (hpc.symm.trans hother)
      exact hcommand
    · rw [hpc] at hlocal
      exact absurd hlocal id
  · rw [hconsole] at hpc
    refine ⟨hopts, ?_, fun other hother => ?_, fun hlocal => ?_⟩
    · rw [hpc]
      refine ⟨response, [], hresponse, ?_, by simp⟩
      rw [hmessages, Message.command, hcommand]
      rfl
    · cases hpc.symm.trans hother
    · rw [hpc] at hlocal
      exact absurd hlocal id

/-- The end of the session, whatever was said. -/
theorem Conversed.ended {after : List RunEvent} (hopts : next.opts = opts)
    (hstage : next.pc.stage = .ended) (hmessages : WellFormed memory opts (messages after)) :
    Conversed memory opts next after := by
  refine ⟨hopts, ?_, fun command hcommand => ?_, fun hlocal => ?_⟩
  · rw [hstage]
    exact hmessages
  · exact absurd hcommand (RunPc.ne_sendingCommand (by simp [hstage]) command)
  · exact absurd hlocal (RunPc.not_local_of_ended hstage)

theorem Conversed.loops {out : List RunEvent} (h : Conversed memory opts s before)
    (hpc : s.pc.stage = .looping) (hopts : next.opts = s.opts)
    (hstage : next.pc.stage = .looping ∨ next.pc.stage = .ended)
    (hmessages : ∀ message ∈ messages out, message.OfLoop opts)
    (hlocal : next.pc.Local → s.pc.Local ∨ opts.noTerminal = false) :
    Conversed memory opts next (before ++ out) := by
  have hsaid := h.said
  rw [hpc] at hsaid
  obtain ⟨response, loop, hresponse, hbefore, hloop⟩ := hsaid
  have hestablished : Established memory opts (messages (before ++ out)) := by
    refine ⟨response, loop ++ messages out, hresponse, ?_, fun message hmem => ?_⟩
    · rw [messages_append, hbefore]
      simp
    · exact (List.mem_append.mp hmem).elim (hloop message) (hmessages message)
  rcases hstage with hlooping | hended
  · refine ⟨hopts.trans h.opts_eq, ?_, fun command hcommand => ?_, fun hgiven => ?_⟩
    · rw [hlooping]
      exact hestablished
    · exact absurd hcommand (RunPc.ne_sendingCommand (by simp [hlooping]) command)
    · exact (hlocal hgiven).elim h.console id
  · exact .ended (hopts.trans h.opts_eq) hended (.inr (.inr (.inr hestablished)))

theorem onPacket_cases (s : RunSession) (memory : Memory) (coalesced : Bytes) (packet : Packet) :
    ((s.onPacket memory coalesced packet).pc.stage = .looping
        ∨ (s.onPacket memory coalesced packet).pc.stage = .ended)
      ∧ (s.onPacket memory coalesced packet).pc.Quits
      ∧ ¬ (s.onPacket memory coalesced packet).pc.Local
      ∧ (s.onPacket memory coalesced packet).lastTi = s.lastTi := by
  unfold onPacket ClientOptions.onOutput
  split_ifs
  · exact ⟨.inl rfl, ⟨rfl, rfl⟩, id, rfl⟩
  · dsimp only
    split
    · exact ⟨.inr rfl, ⟨rfl, rfl⟩, id, rfl⟩
    · exact ⟨.inr rfl, ⟨rfl, rfl⟩, id, rfl⟩
    · exact ⟨.inl rfl, ⟨rfl, rfl⟩, id, rfl⟩
  · exact ⟨.inl rfl, ⟨rfl, rfl⟩, id, rfl⟩
  · exact ⟨.inl rfl, ⟨rfl, rfl⟩, id, rfl⟩
  · exact ⟨.inl rfl, ⟨rfl, rfl⟩, id, rfl⟩

theorem conversed_step (h : Conversed memory opts s before)
    (hstep : runMachine memory s answer = some (next, events)) :
    Conversed memory opts next (before ++ events) := by
  have hopts := h.opts_eq
  have hsaid := h.said
  cases talks_spec hstep with
  | @payload result pc hpc hstage hquits =>
      rw [hpc] at hsaid
      have hmessages : messages (before ++ [.wrote (initialPacket s.opts) result]) =
          [.out (initialPacket opts)] := by
        rw [messages_append, hsaid, hopts]
        rfl
      rcases hstage with hawaiting | hended
      · refine ⟨hopts, ?_, fun command hcommand => ?_, fun hlocal => ?_⟩
        · rw [hawaiting]
          exact hmessages
        · exact absurd hcommand (RunPc.ne_sendingCommand (by simp [hawaiting]) command)
        · exact absurd hlocal (RunPc.not_local_of_awaiting hawaiting)
      · exact .ended hopts hended (.inr (.inl hmessages))
  | @response deadline packet hpc =>
      rw [hpc] at hsaid
      cases packet with
      | none =>
          refine ⟨hopts, ?_, fun command hcommand => ?_, fun hlocal => absurd hlocal id⟩
          · rw [messages_append]
            exact (List.append_nil _).trans hsaid
          · cases hcommand
      | some packet =>
          have hmessages : messages (before ++ [.responded packet]) =
              [.out (initialPacket opts), .in_ packet] := by
            rw [messages_append, hsaid]
            rfl
          rcases s.opts.onResponse_cases memory deadline packet with ⟨haccepts, hpc'⟩ | hended
          · rcases s.opts.onEstablished_cases with hopening | hconsole
            · have hnext := hpc'.trans hopening
              refine ⟨hopts, ?_, fun command hcommand => ?_, fun hlocal => ?_⟩
              · rw [hnext]
                exact ⟨packet, haccepts, hmessages⟩
              · cases hnext.symm.trans hcommand
              · rw [hnext] at hlocal
                exact absurd hlocal id
            · exact conversed_onConsole hopts (hopts ▸ hpc'.trans hconsole) haccepts hmessages
          · exact .ended hopts hended (.inr (.inr (.inl ⟨packet, hmessages⟩)))
  | @opens result pc hpc hnext =>
      rw [hpc] at hsaid
      obtain ⟨response, haccepts, hbefore⟩ := hsaid
      have hmessages : messages (before ++ []) = [.out (initialPacket opts), .in_ response] := by
        rw [List.append_nil, hbefore]
      rcases hnext with hconsole | hended
      · exact conversed_onConsole hopts (hopts ▸ hconsole) haccepts hmessages
      · exact .ended hopts hended (.inr (.inr (.inl ⟨response, hmessages⟩)))
  | @command command result hpc =>
      have hcommand := h.command command hpc
      rw [hpc] at hsaid
      obtain ⟨response, haccepts, hbefore⟩ := hsaid
      refine ⟨hopts, ⟨response, [], haccepts, ?_, by simp⟩, by simp, fun hlocal => absurd hlocal id⟩
      rw [messages_append, hbefore, Message.command, hcommand, hopts]
      rfl
  | input hpc =>
      exact h.loops (hpc ▸ rfl) rfl (.inl rfl) (by simp [messages]) fun _ => .inl (hpc ▸ trivial)
  | @sendsInput bytes result hpc =>
      have hconsole := h.console (hpc ▸ trivial)
      refine h.loops (hpc ▸ rfl) rfl (.inl rfl) (fun message hmem => ?_) fun _ => .inr hconsole
      obtain rfl := List.mem_singleton.mp hmem
      exact .inr ⟨hconsole, .inl ⟨bytes, rfl⟩⟩
  | sameSize hpc hsame =>
      exact h.loops (hpc ▸ rfl) rfl (.inl rfl) (by simp [messages]) fun hlocal => absurd hlocal id
  | newSize hpc hnew =>
      exact h.loops (hpc ▸ rfl) rfl (.inl rfl) (by simp [messages]) fun _ => .inl (hpc ▸ trivial)
  | @sendsInfo ti result hpc =>
      have hconsole := h.console (hpc ▸ trivial)
      refine h.loops (hpc ▸ rfl) rfl (.inl rfl) (fun message hmem => ?_) fun _ => .inr hconsole
      obtain rfl := List.mem_singleton.mp hmem
      exact .inr ⟨hconsole, .inr ⟨ti, rfl⟩⟩
  | sendsKeepalive hpc =>
      refine h.loops (hpc ▸ rfl) rfl (.inl (onLocal_stage _)) (fun message hmem => ?_) fun hlocal =>
        .inr (hopts ▸ onLocal_local hlocal)
      obtain rfl := List.mem_singleton.mp hmem
      exact .inl rfl
  | @reads coalesced packet hpc =>
      obtain ⟨hstage, -, hlocal, -⟩ := s.onPacket_cases memory coalesced packet
      refine h.loops (hpc ▸ rfl) (s.onPacket_opts memory coalesced packet) hstage
        (fun message hmem => ?_) fun hgiven => absurd hgiven hlocal
      obtain rfl := List.mem_singleton.mp hmem
      exact trivial
  | silent hstage hstage' hquits hquits' hlocal hti hsame hnone =>
      rcases hstage with hawaiting | hlooping
      · rw [hawaiting] at hsaid hstage'
        have hmessages : messages (before ++ events) = [.out (initialPacket opts)] := by
          rw [messages_append, hsaid, hnone]
          rfl
        rcases hstage' with hawaiting' | hended
        · refine ⟨hsame.trans hopts, ?_, fun command hcommand => ?_, fun hgiven => ?_⟩
          · rw [hawaiting']
            exact hmessages
          · exact absurd hcommand (RunPc.ne_sendingCommand (by simp [hawaiting']) command)
          · exact absurd hgiven (RunPc.not_local_of_awaiting hawaiting')
        · exact .ended (hsame.trans hopts) hended (.inr (.inl hmessages))
      · rw [hlooping] at hstage'
        refine h.loops hlooping hsame hstage' (by simp [hnone]) fun hgiven => ?_
        exact hopts ▸ hlocal hgiven

theorem start_conversed (memory : Memory) (opts : ClientOptions) :
    Conversed memory opts (start opts) [] :=
  ⟨rfl, rfl, nofun, fun hlocal => absurd hlocal id⟩

end RunSession

/-- **The conversation of a session.** Whatever the connection, the console, the clock and the signal flag
answer, what `run_session` writes and reads is an `INITIAL_PAYLOAD`, then one response, then, if that is
an `INITIAL_RESPONSE` without an error, the command and after it only keepalives and, with a console,
local input and sizes. Nothing is written between the payload and the response, and in the main loop the
session is established. -/
theorem session_conversation {memory : Memory} {opts : ClientOptions} {answers : List RunAnswer}
    {s : RunSession} {events : List RunEvent}
    (hrun : (runMachine memory).run (RunSession.start opts) answers = some (s, events)) :
    WellFormed memory opts (messages events)
      ∧ (s.pc.stage = .looping → Established memory opts (messages events)) := by
  have hconversed := (runMachine memory).run_invariant (I := RunSession.Conversed memory opts)
    RunSession.conversed_step [] (RunSession.start_conversed memory opts) hrun
  refine ⟨hconversed.said.wellFormed, fun hlooping => ?_⟩
  have hsaid := hconversed.said
  rw [hlooping] at hsaid
  exact hsaid

/-- A session that opens, is accepted and writes its command. -/
theorem session_conversation_with_command :
    let memory : Memory := fun len => len ≤ maxProtoBytes
    let opts : ClientOptions := { command := some "ls", noTerminal := true }
    ∃ s events,
      (runMachine memory).run (RunSession.start opts)
          [.wrote true, .now 0, .now 0, .read (some (Packet.new EtPacket.initialResponse [])),
            .wrote true, .now 0] = some (s, events)
        ∧ Established memory opts (messages events) := by
  intro memory opts
  have hran : ((runMachine memory).run (RunSession.start opts)
      [.wrote true, .now 0, .now 0, .read (some (Packet.new EtPacket.initialResponse [])),
        .wrote true, .now 0]).map (fun out => out.1.pc.stage) = some .looping := by
    decide +kernel
  obtain ⟨⟨s, events⟩, hrun, hstage⟩ := Option.map_eq_some_iff.mp hran
  exact ⟨s, events, hrun, (session_conversation hrun).2 hstage⟩

end EternalTerminal
