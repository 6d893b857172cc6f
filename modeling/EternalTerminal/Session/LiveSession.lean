import EternalTerminal.Connection.Client
import EternalTerminal.Session.RunLoop

/-!
# The session loop on its connection

`run_session` runs on the session thread of a `ClientConnection`, beside the reconnect threads. A call
into the connection takes the steps of that thread, with steps of the reconnect threads between them,
and what the connection is when the call ends is what `run_session` is answered. The two flags it reads
are those of the connection at that moment; the console, the clock and the signal flag may answer
anything.
-/

namespace EternalTerminal

namespace RunSession

/-- The call into the connection that `run_session` makes at its place. -/
def connectionCall (s : RunSession) : Option SessionMove :=
  match s.pc with
  | .sendingPayload => some (.writePacket (initialPacket s.opts))
  | .awaitingResponse _ => some .readPacket
  | .sendingCommand command => some (.writePacket (commandPacket s.opts command))
  | .draining _ => some .readPacket
  | .forcing => some .closeAndMaybeReconnect
  | .sendingKeepalive => some (.writePacket keepAlivePacket)
  | .sendingInput bytes => some (.writePacket (bufferPacket bytes))
  | .sendingInfo ti => some (.writePacket (infoPacket ti))
  | _ => none

end RunSession

structure LiveSession where
  client : Client
  run : RunSession
  /-- `run_session` is inside a call into the connection. -/
  calling : Bool

inductive LiveAction where
  | thread (index : Nat) (answer : Answer)
  /-- `run_session` enters the call that it is at. -/
  | call
  /-- The next step of that call. -/
  | inside (move : SessionMove)
  /-- A step of `run_session` that is no call into the connection. -/
  | own (answer : RunAnswer)

inductive LiveEvent where
  | client (event : ClientEvent)
  | run (event : RunEvent)
  /-- `close_and_maybe_reconnect` takes the socket of a reader that has this many entries queued. -/
  | cut (queued : Nat)
  /-- `read_packet` takes an entry off the queue that does not open. -/
  | discarded

namespace Client

/-- The catch-up entries that are counted as received and that `read_packet` has not returned. -/
def localBuffer (client : Client) : List Bytes :=
  match client.shared.reader with
  | some reader => reader.localBuffer
  | none => []

/-- What a step inside a call shows of the queue. -/
def queueEvents (client : Client) (move : SessionMove) : List LiveEvent :=
  match client.session, move with
  | .closing .invalidateReader _, _ => [.cut client.localBuffer.length]
  | .readLocked, .read incoming results =>
    match client.shared.reader with
    | some reader =>
      match reader.localBuffer, (reader.read incoming results).result with
      | _ :: _, .error _ => [.discarded]
      | _, _ => []
    | none => []
  | _, _ => []

/-- What `read_packet` returns if this move ends it. -/
def readResult (client : Client) : SessionMove → Option Packet
  | .read incoming results =>
    match client.session, client.shared.reader with
    | .readLocked, some reader =>
      match (reader.read incoming results).result with
      | .ok packet => packet
      | .error _ => none
    | _, _ => none
  | _ => none

/-- What a call returns in the step that ends it. -/
def callAnswer (client : Client) (call move : SessionMove) (events : List ClientEvent) : RunAnswer :=
  match call with
  | .writePacket _ =>
    .wrote (events.any fun event =>
      match event with
      | .returned result => result
      | _ => false)
  | .readPacket => .read (client.readResult move)
  | _ => .closed

/-- What may be answered without a call: the flags as they are, and anything about the rest. -/
def Shows (client : Client) : RunAnswer → Bool
  | .wrote _ => false
  | .read _ => false
  | .closed => false
  | .shuttingDown value => value == client.shared.shuttingDown
  | .hasSocket value => value == client.shared.socketAlive
  | _ => true

end Client

namespace LiveSession

/-- The session after `connect`. -/
def start (opts : ClientOptions) (readerCrypto writerCrypto : CryptoHandler) : LiveSession where
  client := Client.connected readerCrypto writerCrypto
  run := RunSession.start opts
  calling := false

/-- A step of the session thread inside a call. -/
def insideStep (memory : Memory) (s : LiveSession) (call move : SessionMove) :
    Option (LiveSession × List LiveEvent) :=
  match clientMachine s.client (.session move) with
  | none => none
  | some (client, events) =>
    let shown := events.map .client ++ s.client.queueEvents move
    match client.session with
    | .idle =>
      (runMachine memory s.run (s.client.callAnswer call move events)).map fun out =>
        ({ client, run := out.1, calling := false }, shown ++ out.2.map .run)
    | _ => some ({ s with client }, shown)

end LiveSession

def liveMachine (memory : Memory) : Transducer LiveSession LiveAction LiveEvent := fun s action =>
  match action with
  | .thread index answer =>
    (clientMachine s.client (.thread index answer)).map fun out =>
      ({ s with client := out.1 }, out.2.map .client)
  | .call =>
    match s.calling, s.run.connectionCall with
    | false, some call =>
      (clientMachine s.client (.session call)).map fun out =>
        ({ s with client := out.1, calling := true }, out.2.map .client)
    | _, _ => none
  | .inside move =>
    match s.calling, s.run.connectionCall with
    | true, some call => s.insideStep memory call move
    | _, _ => none
  | .own answer =>
    if s.calling = false ∧ s.client.Shows answer = true then
      (runMachine memory s.run answer).map fun out => ({ s with run := out.1 }, out.2.map .run)
    else none

/-! ### What a step does -/

namespace LiveSession

/-- The ways a step can go. -/
inductive Lives (memory : Memory) (s : LiveSession) :
    LiveAction → LiveSession → List LiveEvent → Prop
  | thread {index answer client events} :
      clientMachine s.client (.thread index answer) = some (client, events) →
      Lives memory s (.thread index answer) { s with client } (events.map .client)
  | calls {call client events} : s.calling = false → s.run.connectionCall = some call →
      clientMachine s.client (.session call) = some (client, events) →
      Lives memory s .call { s with client, calling := true } (events.map .client)
  | continues {call move client events} : s.calling = true → s.run.connectionCall = some call →
      clientMachine s.client (.session move) = some (client, events) → client.session ≠ .idle →
      Lives memory s (.inside move) { s with client } (events.map .client ++ s.client.queueEvents move)
  | returns {call move client events run out} : s.calling = true →
      s.run.connectionCall = some call →
      clientMachine s.client (.session move) = some (client, events) → client.session = .idle →
      runMachine memory s.run (s.client.callAnswer call move events) = some (run, out) →
      Lives memory s (.inside move) { client, run, calling := false }
        (events.map .client ++ s.client.queueEvents move ++ out.map .run)
  | own {answer run out} : s.calling = false → s.client.Shows answer = true →
      runMachine memory s.run answer = some (run, out) →
      Lives memory s (.own answer) { s with run } (out.map .run)

theorem insideStep_spec {memory : Memory} {s next : LiveSession} {call move : SessionMove}
    {events : List LiveEvent} (hcalling : s.calling = true)
    (hcall : s.run.connectionCall = some call)
    (h : s.insideStep memory call move = some (next, events)) :
    Lives memory s (.inside move) next events := by
  unfold insideStep at h
  rcases hclient : clientMachine s.client (.session move) with _ | ⟨client, inner⟩
  · simp [hclient] at h
  · simp only [hclient] at h
    split at h
    · next hidle =>
        simp only [Option.map_eq_some_iff, Prod.mk.injEq] at h
        obtain ⟨⟨run, out⟩, hrun, rfl, rfl⟩ := h
        exact .returns hcalling hcall hclient hidle hrun
    · next hbusy =>
        obtain ⟨rfl, rfl⟩ := Prod.mk.inj (Option.some.inj h)
        exact .continues hcalling hcall hclient hbusy

theorem liveStep_spec {memory : Memory} {s next : LiveSession} {action : LiveAction}
    {events : List LiveEvent} (h : liveMachine memory s action = some (next, events)) :
    Lives memory s action next events := by
  cases action with
  | thread index answer =>
      simp only [liveMachine, Option.map_eq_some_iff, Prod.mk.injEq] at h
      obtain ⟨⟨client, inner⟩, hclient, rfl, rfl⟩ := h
      exact .thread hclient
  | call =>
      simp only [liveMachine] at h
      split at h
      · next call hcalling hcall =>
          simp only [Option.map_eq_some_iff, Prod.mk.injEq] at h
          obtain ⟨⟨client, inner⟩, hclient, rfl, rfl⟩ := h
          exact .calls hcalling hcall hclient
      · simp at h
  | inside move =>
      simp only [liveMachine] at h
      split at h
      · next call hcalling hcall => exact insideStep_spec hcalling hcall h
      · simp at h
  | own answer =>
      simp only [liveMachine] at h
      split_ifs at h with hown
      simp only [Option.map_eq_some_iff, Prod.mk.injEq] at h
      obtain ⟨⟨run, out⟩, hrun, rfl, rfl⟩ := h
      exact .own hown.1 hown.2 hrun

end LiveSession

/-! ### The two sides of a run -/

namespace LiveEvent

def client? : LiveEvent → Option ClientEvent
  | .client event => some event
  | _ => none

def run? : LiveEvent → Option RunEvent
  | .run event => some event
  | _ => none

@[simp] theorem client?_client (event : ClientEvent) : (client event).client? = some event := rfl

@[simp] theorem client?_run (event : RunEvent) : (run event).client? = none := rfl

@[simp] theorem run?_client (event : ClientEvent) : (client event).run? = none := rfl

@[simp] theorem run?_run (event : RunEvent) : (run event).run? = some event := rfl

theorem queueEvents_cases (client : Client) (move : SessionMove) :
    client.queueEvents move = [] ∨ client.queueEvents move = [.cut client.localBuffer.length]
      ∨ client.queueEvents move = [.discarded] := by
  unfold Client.queueEvents
  repeat' split
  all_goals simp

@[simp] theorem client_queueEvents (client : Client) (move : SessionMove) :
    (client.queueEvents move).filterMap client? = [] := by
  rcases queueEvents_cases client move with h | h | h <;> rw [h] <;> rfl

@[simp] theorem run_queueEvents (client : Client) (move : SessionMove) :
    (client.queueEvents move).filterMap run? = [] := by
  rcases queueEvents_cases client move with h | h | h <;> rw [h] <;> rfl

end LiveEvent

namespace LiveSession

variable {memory : Memory} {s next : LiveSession} {actions : List LiveAction}
  {events : List LiveEvent}

theorem client_run (h : (liveMachine memory).run s actions = some (next, events)) :
    ∃ moves, clientMachine.run s.client moves =
      some (next.client, events.filterMap LiveEvent.client?) := by
  refine (liveMachine memory).run_simulates (f := LiveSession.client) (fun hstep => ?_) h
  cases liveStep_spec hstep with
  | thread hclient =>
      exact ⟨_, (clientMachine.run_singleton).mpr (by simpa [Function.comp_def] using hclient)⟩
  | calls hcalling hcall hclient =>
      exact ⟨_, (clientMachine.run_singleton).mpr (by simpa [Function.comp_def] using hclient)⟩
  | continues hcalling hcall hclient hbusy =>
      exact ⟨_, (clientMachine.run_singleton).mpr (by simpa [Function.comp_def] using hclient)⟩
  | returns hcalling hcall hclient hidle hrun =>
      exact ⟨_, (clientMachine.run_singleton).mpr (by simpa [Function.comp_def] using hclient)⟩
  | own hcalling hshows hrun => exact ⟨[], by simp⟩

theorem loop_run (h : (liveMachine memory).run s actions = some (next, events)) :
    ∃ answers, (runMachine memory).run s.run answers =
      some (next.run, events.filterMap LiveEvent.run?) := by
  refine (liveMachine memory).run_simulates (f := LiveSession.run) (fun hstep => ?_) h
  cases liveStep_spec hstep with
  | thread hclient => exact ⟨[], by simp⟩
  | calls hcalling hcall hclient => exact ⟨[], by simp⟩
  | continues hcalling hcall hclient hbusy => exact ⟨[], by simp⟩
  | returns hcalling hcall hclient hidle hrun =>
      exact ⟨_, ((runMachine memory).run_singleton).mpr
        (by simpa [Function.comp_def] using hrun)⟩
  | own hcalling hshows hrun =>
      exact ⟨_, ((runMachine memory).run_singleton).mpr
        (by simpa [Function.comp_def] using hrun)⟩

end LiveSession

end EternalTerminal
