import EternalTerminal.Packet
import EternalTerminal.Proto.Message
import EternalTerminal.Library.Transducer

/-!
# The session loop (`client.rs`, `run_session`)

`run_session` is a program counter that takes one call at a time: into the connection, the console, the
clock or the signal flag. What the call answers comes with the step, so the connection may answer
anything here. The sleeps are left out: they do nothing but let the clock go on.
-/

namespace EternalTerminal

/-- What `Instant::now()` reads, in nanoseconds. -/
abbrev Instant := Nat

abbrev Duration := Nat

namespace Duration

def fromSecs (secs : Nat) : Duration := secs * 1000000000

end Duration

namespace EtPacket

def heartbeat : UInt8 := 254

def initialPayload : UInt8 := 253

def initialResponse : UInt8 := 252

end EtPacket

namespace TerminalPacket

def keepAlive : UInt8 := 0

def terminalBuffer : UInt8 := 1

def terminalInfo : UInt8 := 2

end TerminalPacket

def defaultKeepaliveSecs : Nat := 5

structure ClientOptions where
  command : Option String := none
  noExit : Bool := false
  keepaliveSecs : Nat := defaultKeepaliveSecs
  jumphost : Bool := false
  noTerminal : Bool := false

/-- The `anyhow::Error` of `run_session`: its own or the console's, or that of a decoder. -/
inductive RunError where
  | error (e : Error)
  | proto (e : ProtoError)
  deriving DecidableEq, Repr

/-- The call that `run_session` makes next, with the locals that are in scope. -/
inductive RunPc where
  | sendingPayload
  | startingWait
  /-- The head of the loop that waits for `INITIAL_RESPONSE`. -/
  | waiting (deadline : Instant)
  | awaitingResponse (deadline : Instant)
  | openingConsole
  | sendingCommand (command : String)
  | arming
  /-- The two flags at the head of the main loop. -/
  | loopHead
  | checkingFlag
  | checkingSocket
  | draining (coalesced : Bytes)
  /-- The deadline moves after terminal output. -/
  | rearmingOutput (coalesced : Bytes)
  | showing (coalesced : Bytes)
  | checkingDeadline
  | rearmingKeepalive
  | forcing
  | sendingKeepalive
  | polling
  | sendingInput (bytes : Bytes)
  | rearmingInput
  | sizing
  | sendingInfo (ti : TerminalInfo)
  /-- Without a console `has_socket` chooses the pause. -/
  | pausing
  | returned (result : Except RunError Unit)
  /-- A decoder panicked. -/
  | crashed
  deriving DecidableEq

/-- What a call answers. -/
inductive RunAnswer where
  | now (t : Instant)
  /-- `write_packet` -/
  | wrote (result : Bool)
  /-- `read_packet`, which never answers `Err` -/
  | read (packet : Option Packet)
  /-- `close_and_maybe_reconnect` -/
  | closed
  | shuttingDown (value : Bool)
  /-- The flag that a signal sets. -/
  | shutdown (value : Bool)
  | hasSocket (value : Bool)
  /-- `LocalConsole::new` -/
  | opened (result : Except Error Unit)
  /-- `LocalConsole::write` -/
  | shown (result : Except Error Unit)
  | input (result : Except Error (Option Bytes))
  | size (ti : TerminalInfo)

inductive RunEvent where
  | now (t : Instant)
  | wrote (packet : Packet) (result : Bool)
  /-- A packet that the wait for `INITIAL_RESPONSE` read. -/
  | responded (packet : Packet)
  /-- A packet that the main loop read. -/
  | read (packet : Packet)
  /-- `has_socket` at the top of the main loop. -/
  | hasSocket (value : Bool)
  /-- `close_and_maybe_reconnect` after a missed keepalive. -/
  | forced
  /-- The bytes passed to the console. -/
  | shown (bytes : Bytes)
  /-- The main loop ends because `is_shutting_down` is true. -/
  | ended
  deriving DecidableEq

structure RunSession where
  opts : ClientOptions
  pc : RunPc
  /-- The last reading of the clock. -/
  clock : Instant
  keepaliveDeadline : Instant
  waitingOnKeepalive : Bool
  lastTi : TerminalInfo

def initialPacket (opts : ClientOptions) : Packet :=
  let payload : InitialPayload := { jumphost := (some opts.jumphost).filter fun j => j }
  Packet.new EtPacket.initialPayload payload.encode

def bufferPacket (bytes : Bytes) : Packet :=
  let tb : TerminalBuffer := { buffer := some bytes }
  Packet.new TerminalPacket.terminalBuffer tb.encode

def commandPacket (opts : ClientOptions) (command : String) : Packet :=
  let body := if opts.noExit then command ++ "\n" else command ++ "; exit\n"
  bufferPacket body.toUTF8.data.toList

def keepAlivePacket : Packet := Packet.new TerminalPacket.keepAlive []

def infoPacket (ti : TerminalInfo) : Packet := Packet.new TerminalPacket.terminalInfo ti.encode

namespace ClientOptions

def keepaliveDuration (opts : ClientOptions) : Duration :=
  Duration.fromSecs (max 1 (min opts.keepaliveSecs 5))

/-- After the console is there or is not wanted. -/
def onConsole (opts : ClientOptions) : RunPc :=
  match opts.command with
  | some command => .sendingCommand command
  | none => .arming

/-- After the session is established. -/
def onEstablished (opts : ClientOptions) : RunPc :=
  if opts.noTerminal then opts.onConsole else .openingConsole

/-- What the wait does with what it read. -/
def onResponse (memory : Memory) (opts : ClientOptions) (deadline : Instant) :
    Option Packet → RunPc
  | none => .waiting deadline
  | some packet =>
    if packet.header ≠ EtPacket.initialResponse then
      .returned (.error (.error (.msg
        ("expected INITIAL_RESPONSE, got header " ++ toString packet.header))))
    else
      match (ProtoMessage.decode memory packet.payload : Decoded InitialResponse) with
      | .error .crash => .crashed
      | .error (.err e) => .returned (.error (.proto e))
      | .ok resp =>
        match resp.error with
        | some err =>
          if err.isEmpty then opts.onEstablished
          else .returned (.error (.error (.msg ("error initializing connection: " ++ err))))
        | none => opts.onEstablished

/-- The second half of the main loop: local input, or a pause. -/
def onLocal (opts : ClientOptions) : RunPc := if opts.noTerminal then .pausing else .polling

/-- After the network is drained. -/
def onDrained (opts : ClientOptions) (coalesced : Bytes) : RunPc :=
  if opts.noTerminal = false ∧ coalesced ≠ [] then .showing coalesced else .checkingDeadline

/-- Where a `TERMINAL_BUFFER` packet leads when a console is attached. -/
def onOutput (memory : Memory) (coalesced payload : Bytes) : RunPc :=
  match (ProtoMessage.decode memory payload : Decoded TerminalBuffer) with
  | .error .crash => .crashed
  | .error (.err e) => .returned (.error (.proto e))
  | .ok tb => .rearmingOutput (coalesced ++ tb.buffer.getD [])

end ClientOptions

namespace RunSession

def start (opts : ClientOptions) : RunSession where
  opts := opts
  pc := .sendingPayload
  clock := 0
  keepaliveDeadline := 0
  waitingOnKeepalive := false
  lastTi := {}

/-- Read the clock, which never goes back. -/
def tick (s : RunSession) (t : Instant) (next : RunSession) :
    Option (RunSession × List RunEvent) :=
  if s.clock ≤ t then some ({ next with clock := t }, [.now t]) else none

/-- Read the clock and move the keepalive deadline. -/
def rearm (s : RunSession) (t : Instant) (pc : RunPc) : Option (RunSession × List RunEvent) :=
  s.tick t { s with pc, keepaliveDeadline := t + s.opts.keepaliveDuration }

/-- The `match` on the header of a packet that the main loop read. -/
def onPacket (memory : Memory) (s : RunSession) (coalesced : Bytes) (packet : Packet) : RunSession :=
  if packet.header = TerminalPacket.terminalBuffer then
    if s.opts.noTerminal then { s with pc := .draining coalesced }
    else { s with pc := ClientOptions.onOutput memory coalesced packet.payload }
  else if packet.header = TerminalPacket.keepAlive then
    { s with pc := .draining coalesced, waitingOnKeepalive := false }
  else if packet.header = EtPacket.heartbeat then { s with pc := .draining coalesced }
  else { s with pc := .draining coalesced }

end RunSession

/-- One call of `run_session`; `none` if the answer is not one to it. -/
def runStep (memory : Memory) (s : RunSession) : RunPc → RunAnswer →
    Option (RunSession × List RunEvent)
  | .sendingPayload, .wrote result =>
    let pc := if result then .startingWait
      else .returned (.error (.error (.msg "failed to send initial payload")))
    some ({ s with pc }, [.wrote (initialPacket s.opts) result])
  | .startingWait, .now t => s.tick t { s with pc := .waiting (t + Duration.fromSecs 3) }
  | .waiting deadline, .now t =>
    let pc := if t < deadline then .awaitingResponse deadline
      else .returned (.error (.error (.msg "connect timeout waiting for INITIAL_RESPONSE")))
    s.tick t { s with pc }
  | .awaitingResponse deadline, .read packet =>
    some ({ s with pc := s.opts.onResponse memory deadline packet },
      packet.toList.map .responded)
  | .openingConsole, .opened (.ok ()) => some ({ s with pc := s.opts.onConsole }, [])
  | .openingConsole, .opened (.error e) =>
    some ({ s with pc := .returned (.error (.error e)) }, [])
  | .sendingCommand command, .wrote result =>
    some ({ s with pc := .arming }, [.wrote (commandPacket s.opts command) result])
  | .arming, .now t => s.rearm t .loopHead
  | .loopHead, .shuttingDown true => some ({ s with pc := .returned (.ok ()) }, [.ended])
  | .loopHead, .shuttingDown false => some ({ s with pc := .checkingFlag }, [])
  | .checkingFlag, .shutdown value =>
    some ({ s with pc := if value then .returned (.ok ()) else .checkingSocket }, [])
  | .checkingSocket, .hasSocket true => some ({ s with pc := .draining [] }, [.hasSocket true])
  | .checkingSocket, .hasSocket false =>
    some ({ s with pc := s.opts.onLocal, waitingOnKeepalive := false }, [.hasSocket false])
  | .draining coalesced, .read none => some ({ s with pc := s.opts.onDrained coalesced }, [])
  | .draining coalesced, .read (some packet) =>
    some (s.onPacket memory coalesced packet, [.read packet])
  | .rearmingOutput coalesced, .now t => s.rearm t (.draining coalesced)
  | .showing coalesced, .shown (.ok ()) =>
    some ({ s with pc := .checkingDeadline }, [.shown coalesced])
  | .showing coalesced, .shown (.error e) =>
    some ({ s with pc := .returned (.error (.error e)) }, [.shown coalesced])
  | .checkingDeadline, .now t =>
    s.tick t { s with pc := if s.keepaliveDeadline ≤ t then .rearmingKeepalive else s.opts.onLocal }
  | .rearmingKeepalive, .now t =>
    s.rearm t (if s.waitingOnKeepalive then .forcing else .sendingKeepalive)
  | .forcing, .closed =>
    some ({ s with pc := s.opts.onLocal, waitingOnKeepalive := false }, [.forced])
  | .sendingKeepalive, .wrote result =>
    some ({ s with pc := s.opts.onLocal, waitingOnKeepalive := true },
      [.wrote keepAlivePacket result])
  | .polling, .input (.ok (some bytes)) => some ({ s with pc := .sendingInput bytes }, [])
  | .polling, .input (.ok none) => some ({ s with pc := .sizing }, [])
  | .polling, .input (.error _) => some ({ s with pc := .returned (.ok ()) }, [])
  | .sendingInput bytes, .wrote result =>
    some ({ s with pc := .rearmingInput }, [.wrote (bufferPacket bytes) result])
  | .rearmingInput, .now t => s.rearm t .sizing
  | .sizing, .size ti =>
    if ti = s.lastTi then some ({ s with pc := .loopHead }, [])
    else some ({ s with pc := .sendingInfo ti, lastTi := ti }, [])
  | .sendingInfo ti, .wrote result =>
    some ({ s with pc := .loopHead }, [.wrote (infoPacket ti) result])
  | .pausing, .hasSocket _ => some ({ s with pc := .loopHead }, [])
  | _, _ => none

def runMachine (memory : Memory) : Transducer RunSession RunAnswer RunEvent := fun s answer =>
  runStep memory s s.pc answer

/-- `run_session` is over. -/
def RunSession.Over (s : RunSession) : Prop :=
  match s.pc with
  | .returned _ => True
  | .crashed => True
  | _ => False

/-! ### What a step does

The rest of the development knows a step of the loop through the cases of `Runs`. A place is plain if it
holds no output and is not in the middle of the keepalive. -/

namespace RunPc

def Plain : RunPc → Prop
  | .draining _ => False
  | .rearmingOutput _ => False
  | .showing _ => False
  | .rearmingKeepalive => False
  | .forcing => False
  | .sendingKeepalive => False
  | _ => True

end RunPc

namespace ClientOptions

theorem onConsole_plain (opts : ClientOptions) : opts.onConsole.Plain := by
  unfold onConsole
  cases opts.command <;> exact trivial

theorem onEstablished_plain (opts : ClientOptions) : opts.onEstablished.Plain := by
  unfold onEstablished
  split_ifs
  · exact opts.onConsole_plain
  · exact trivial

theorem onResponse_plain (memory : Memory) (opts : ClientOptions) (deadline : Instant)
    (packet : Option Packet) : (opts.onResponse memory deadline packet).Plain := by
  cases packet with
  | none => exact trivial
  | some packet =>
      simp only [onResponse]
      split_ifs
      · exact trivial
      · split
        · exact trivial
        · exact trivial
        · split
          · split_ifs
            · exact opts.onEstablished_plain
            · exact trivial
          · exact opts.onEstablished_plain

theorem onLocal_plain (opts : ClientOptions) : opts.onLocal.Plain := by
  unfold onLocal
  split_ifs <;> exact trivial

end ClientOptions

namespace RunEvent

/-- Nothing but writes of other packets than `KEEP_ALIVE`. -/
def Quiet (events : List RunEvent) : Prop :=
  ∀ event ∈ events, ∃ packet result, event = .wrote packet result
    ∧ packet.header ≠ TerminalPacket.keepAlive

theorem Quiet.nil : Quiet [] := by simp [Quiet]

theorem Quiet.wrote {packet : Packet} (result : Bool)
    (h : packet.header ≠ TerminalPacket.keepAlive) : Quiet [.wrote packet result] := by
  intro event hmem
  exact ⟨packet, result, List.mem_singleton.mp hmem, h⟩

end RunEvent

namespace RunSession

/-- The ways a step can go. -/
inductive Runs (memory : Memory) (s : RunSession) : RunAnswer → RunSession → List RunEvent → Prop
  /-- Before the main loop, or between its parts. -/
  | moves {answer pc lastTi events} : s.pc.Plain → pc.Plain → (∀ packet, answer ≠ .read packet) →
      RunEvent.Quiet events → Runs memory s answer { s with pc, lastTi } events
  | responds {deadline packet} : s.pc = .awaitingResponse deadline →
      Runs memory s (.read packet) { s with pc := s.opts.onResponse memory deadline packet }
        (packet.toList.map .responded)
  | ticks {t pc} : s.pc.Plain → pc.Plain → s.clock ≤ t →
      Runs memory s (.now t) { s with pc, clock := t } [.now t]
  | rearms {t pc} : s.pc.Plain → pc.Plain → s.clock ≤ t → Runs memory s (.now t)
      { s with pc, clock := t, keepaliveDeadline := t + s.opts.keepaliveDuration } [.now t]
  | ends : s.pc = .loopHead →
      Runs memory s (.shuttingDown true) { s with pc := .returned (.ok ()) } [.ended]
  | connected : s.pc = .checkingSocket →
      Runs memory s (.hasSocket true) { s with pc := .draining [] } [.hasSocket true]
  | unconnected : s.pc = .checkingSocket → Runs memory s (.hasSocket false)
      { s with pc := s.opts.onLocal, waitingOnKeepalive := false } [.hasSocket false]
  | drained {coalesced} : s.pc = .draining coalesced →
      Runs memory s (.read none) { s with pc := s.opts.onDrained coalesced } []
  | reads {coalesced packet} : s.pc = .draining coalesced →
      Runs memory s (.read (some packet)) (s.onPacket memory coalesced packet) [.read packet]
  | rearmsOutput {coalesced t} : s.pc = .rearmingOutput coalesced → s.clock ≤ t →
      Runs memory s (.now t)
        { s with
          pc := .draining coalesced
          clock := t
          keepaliveDeadline := t + s.opts.keepaliveDuration } [.now t]
  | shows {coalesced result pc} : s.pc = .showing coalesced → pc.Plain →
      Runs memory s (.shown result) { s with pc } [.shown coalesced]
  | due {t} : s.pc = .checkingDeadline → s.clock ≤ t → s.keepaliveDeadline ≤ t →
      Runs memory s (.now t) { s with pc := .rearmingKeepalive, clock := t } [.now t]
  | rearmsKeepalive {t} : s.pc = .rearmingKeepalive → s.clock ≤ t → Runs memory s (.now t)
      { s with
        pc := if s.waitingOnKeepalive then .forcing else .sendingKeepalive
        clock := t
        keepaliveDeadline := t + s.opts.keepaliveDuration } [.now t]
  | forces : s.pc = .forcing → Runs memory s .closed
      { s with pc := s.opts.onLocal, waitingOnKeepalive := false } [.forced]
  | sendsKeepalive {result} : s.pc = .sendingKeepalive → Runs memory s (.wrote result)
      { s with pc := s.opts.onLocal, waitingOnKeepalive := true } [.wrote keepAlivePacket result]

theorem Runs.sends {memory : Memory} {s : RunSession} {pc : RunPc} {lastTi : TerminalInfo}
    {packet : Packet} {result : Bool} (hplain : s.pc.Plain) (hplain' : pc.Plain)
    (hheader : packet.header ≠ TerminalPacket.keepAlive) :
    Runs memory s (.wrote result) { s with pc, lastTi } [.wrote packet result] := by
  apply Runs.moves hplain hplain' _ (.wrote result hheader)
  intro packet
  exact RunAnswer.noConfusion

theorem tick_eq_some {s next after : RunSession} {t : Instant} {events : List RunEvent}
    (h : s.tick t next = some (after, events)) :
    s.clock ≤ t ∧ after = { next with clock := t } ∧ events = [.now t] := by
  unfold tick at h
  split_ifs at h with hclock
  obtain ⟨rfl, rfl⟩ := Prod.mk.inj (Option.some.inj h)
  exact ⟨hclock, rfl, rfl⟩

theorem runStep_spec {memory : Memory} {s next : RunSession} {answer : RunAnswer}
    {events : List RunEvent} (h : runMachine memory s answer = some (next, events)) :
    Runs memory s answer next events := by
  unfold runMachine at h
  cases hpc : s.pc with
  | sendingPayload =>
      have hplain : s.pc.Plain := hpc ▸ trivial
      rw [hpc] at h
      cases answer <;> simp only [runStep, Option.some.injEq, Prod.mk.injEq, reduceCtorEq] at h
      obtain ⟨rfl, rfl⟩ := h
      apply Runs.sends hplain
      · split_ifs <;> exact trivial
      · show EtPacket.initialPayload ≠ TerminalPacket.keepAlive
        decide
  | startingWait =>
      have hplain : s.pc.Plain := hpc ▸ trivial
      rw [hpc] at h
      cases answer <;> simp only [runStep, reduceCtorEq] at h
      obtain ⟨hclock, rfl, rfl⟩ := tick_eq_some h
      exact .ticks hplain trivial hclock
  | waiting deadline =>
      have hplain : s.pc.Plain := hpc ▸ trivial
      rw [hpc] at h
      cases answer <;> simp only [runStep, reduceCtorEq] at h
      obtain ⟨hclock, rfl, rfl⟩ := tick_eq_some h
      refine .ticks hplain ?_ hclock
      split_ifs <;> exact trivial
  | awaitingResponse deadline =>
      rw [hpc] at h
      cases answer <;> simp only [runStep, Option.some.injEq, Prod.mk.injEq, reduceCtorEq] at h
      obtain ⟨rfl, rfl⟩ := h
      exact .responds hpc
  | openingConsole =>
      have hplain : s.pc.Plain := hpc ▸ trivial
      rw [hpc] at h
      rcases answer with _ | _ | _ | _ | _ | _ | _ | ⟨e | _⟩ | _ | _ | _ <;>
        simp only [runStep, Option.some.injEq, Prod.mk.injEq, reduceCtorEq] at h <;>
        obtain ⟨rfl, rfl⟩ := h
      · exact .moves hplain trivial (by simp) .nil
      · exact .moves hplain s.opts.onConsole_plain (by simp) .nil
  | sendingCommand command =>
      have hplain : s.pc.Plain := hpc ▸ trivial
      rw [hpc] at h
      cases answer <;> simp only [runStep, Option.some.injEq, Prod.mk.injEq, reduceCtorEq] at h
      obtain ⟨rfl, rfl⟩ := h
      refine .sends hplain trivial ?_
      show TerminalPacket.terminalBuffer ≠ TerminalPacket.keepAlive
      decide
  | arming =>
      have hplain : s.pc.Plain := hpc ▸ trivial
      rw [hpc] at h
      cases answer <;> simp only [runStep, reduceCtorEq] at h
      obtain ⟨hclock, rfl, rfl⟩ := tick_eq_some h
      exact .rearms hplain trivial hclock
  | loopHead =>
      have hplain : s.pc.Plain := hpc ▸ trivial
      rw [hpc] at h
      rcases answer with _ | _ | _ | _ | ⟨_ | _⟩ | _ | _ | _ | _ | _ | _ <;>
        simp only [runStep, Option.some.injEq, Prod.mk.injEq, reduceCtorEq] at h <;>
        obtain ⟨rfl, rfl⟩ := h
      · exact .moves hplain trivial (by simp) .nil
      · exact .ends hpc
  | checkingFlag =>
      have hplain : s.pc.Plain := hpc ▸ trivial
      rw [hpc] at h
      cases answer <;> simp only [runStep, Option.some.injEq, Prod.mk.injEq, reduceCtorEq] at h
      obtain ⟨rfl, rfl⟩ := h
      refine .moves hplain ?_ (by simp) .nil
      split_ifs <;> exact trivial
  | checkingSocket =>
      rw [hpc] at h
      rcases answer with _ | _ | _ | _ | _ | _ | ⟨_ | _⟩ | _ | _ | _ | _ <;>
        simp only [runStep, Option.some.injEq, Prod.mk.injEq, reduceCtorEq] at h <;>
        obtain ⟨rfl, rfl⟩ := h
      · exact .unconnected hpc
      · exact .connected hpc
  | draining coalesced =>
      rw [hpc] at h
      rcases answer with _ | _ | ⟨_ | _⟩ | _ | _ | _ | _ | _ | _ | _ | _ <;>
        simp only [runStep, Option.some.injEq, Prod.mk.injEq, reduceCtorEq] at h <;>
        obtain ⟨rfl, rfl⟩ := h
      · exact .drained hpc
      · exact .reads hpc
  | rearmingOutput coalesced =>
      rw [hpc] at h
      cases answer <;> simp only [runStep, reduceCtorEq] at h
      obtain ⟨hclock, rfl, rfl⟩ := tick_eq_some h
      exact .rearmsOutput hpc hclock
  | showing coalesced =>
      rw [hpc] at h
      rcases answer with _ | _ | _ | _ | _ | _ | _ | _ | ⟨e | _⟩ | _ | _ <;>
        simp only [runStep, Option.some.injEq, Prod.mk.injEq, reduceCtorEq] at h <;>
        obtain ⟨rfl, rfl⟩ := h
      · exact .shows hpc trivial
      · exact .shows hpc trivial
  | checkingDeadline =>
      have hplain : s.pc.Plain := hpc ▸ trivial
      rw [hpc] at h
      cases answer <;> simp only [runStep, reduceCtorEq] at h
      obtain ⟨hclock, rfl, rfl⟩ := tick_eq_some h
      split_ifs with hdue
      · exact .due hpc hclock hdue
      · exact .ticks hplain s.opts.onLocal_plain hclock
  | rearmingKeepalive =>
      rw [hpc] at h
      cases answer <;> simp only [runStep, reduceCtorEq] at h
      obtain ⟨hclock, rfl, rfl⟩ := tick_eq_some h
      exact .rearmsKeepalive hpc hclock
  | forcing =>
      rw [hpc] at h
      cases answer <;> simp only [runStep, Option.some.injEq, Prod.mk.injEq, reduceCtorEq] at h
      obtain ⟨rfl, rfl⟩ := h
      exact .forces hpc
  | sendingKeepalive =>
      rw [hpc] at h
      cases answer <;> simp only [runStep, Option.some.injEq, Prod.mk.injEq, reduceCtorEq] at h
      obtain ⟨rfl, rfl⟩ := h
      exact .sendsKeepalive hpc
  | polling =>
      have hplain : s.pc.Plain := hpc ▸ trivial
      rw [hpc] at h
      rcases answer with _ | _ | _ | _ | _ | _ | _ | _ | _ | ⟨e | _ | bytes⟩ | _ <;>
        simp only [runStep, Option.some.injEq, Prod.mk.injEq, reduceCtorEq] at h <;>
        obtain ⟨rfl, rfl⟩ := h
      · exact .moves hplain trivial (by simp) .nil
      · exact .moves hplain trivial (by simp) .nil
      · exact .moves hplain trivial (by simp) .nil
  | sendingInput bytes =>
      have hplain : s.pc.Plain := hpc ▸ trivial
      rw [hpc] at h
      cases answer <;> simp only [runStep, Option.some.injEq, Prod.mk.injEq, reduceCtorEq] at h
      obtain ⟨rfl, rfl⟩ := h
      refine .sends hplain trivial ?_
      show TerminalPacket.terminalBuffer ≠ TerminalPacket.keepAlive
      decide
  | rearmingInput =>
      have hplain : s.pc.Plain := hpc ▸ trivial
      rw [hpc] at h
      cases answer <;> simp only [runStep, reduceCtorEq] at h
      obtain ⟨hclock, rfl, rfl⟩ := tick_eq_some h
      exact .rearms hplain trivial hclock
  | sizing =>
      have hplain : s.pc.Plain := hpc ▸ trivial
      rw [hpc] at h
      cases answer <;> simp only [runStep, reduceCtorEq] at h
      split_ifs at h <;> obtain ⟨rfl, rfl⟩ := Prod.mk.inj (Option.some.inj h)
      · exact .moves hplain trivial (by simp) .nil
      · exact .moves hplain trivial (by simp) .nil
  | sendingInfo ti =>
      have hplain : s.pc.Plain := hpc ▸ trivial
      rw [hpc] at h
      cases answer <;> simp only [runStep, Option.some.injEq, Prod.mk.injEq, reduceCtorEq] at h
      obtain ⟨rfl, rfl⟩ := h
      refine .sends hplain trivial ?_
      show TerminalPacket.terminalInfo ≠ TerminalPacket.keepAlive
      decide
  | pausing =>
      have hplain : s.pc.Plain := hpc ▸ trivial
      rw [hpc] at h
      cases answer <;> simp only [runStep, Option.some.injEq, Prod.mk.injEq, reduceCtorEq] at h
      obtain ⟨rfl, rfl⟩ := h
      exact .moves hplain trivial (by simp) .nil
  | returned result =>
      rw [hpc] at h
      simp [runStep] at h
  | crashed =>
      rw [hpc] at h
      simp [runStep] at h

theorem onPacket_opts (s : RunSession) (memory : Memory) (coalesced : Bytes) (packet : Packet) :
    (s.onPacket memory coalesced packet).opts = s.opts := by
  unfold onPacket
  split_ifs <;> rfl

theorem opts_eq_of_step {memory : Memory} {s next : RunSession} {answer : RunAnswer}
    {events : List RunEvent} (h : runMachine memory s answer = some (next, events)) :
    next.opts = s.opts := by
  cases runStep_spec h with
  | @reads coalesced packet hpc => exact s.onPacket_opts memory coalesced packet
  | _ => rfl

theorem opts_eq_of_run {memory : Memory} {s next : RunSession} {answers : List RunAnswer}
    {events : List RunEvent} (h : (runMachine memory).run s answers = some (next, events)) :
    next.opts = s.opts := by
  exact (runMachine memory).run_invariant_state (I := fun t => t.opts = s.opts)
    (fun ht hstep => (opts_eq_of_step hstep).trans ht) rfl h

end RunSession

end EternalTerminal
