import EternalTerminal.Connection.Reconnect
import EternalTerminal.Library.Transducer

/-!
# The client connection (`connection.rs`, `ClientConnection`)

One session thread calls `write_packet`, `read_packet`, `close_and_maybe_reconnect` and `shutdown`; the
reconnect threads it spawns run beside it. The system takes one step of one thread at a time.
-/

namespace EternalTerminal

/-- Where `close_and_maybe_reconnect` is. -/
inductive CloseStage where
  | takeHandle
  | joining (thread : Nat)
  | invalidateReader
  | invalidateWriter
  | clearAlive
  | maybeSpawn
  | storeHandle (thread : Nat)

/-- Where `shutdown` is. -/
inductive ShutdownStage where
  | setFlag
  | takeHandle
  | joining (thread : Nat)
  | clearReader
  | clearWriter
  | clearAlive

/-- Who called `close_and_maybe_reconnect`: the loop of `write_packet`, or something that is done when
it returns. -/
inductive Caller where
  | writePacket (packet : Packet)
  | other

inductive SessionPc where
  | idle
  /-- The head of the loop of `write_packet`. -/
  | writeCheck (packet : Packet)
  | writeLocked (packet : Packet)
  | readLocked
  | closing (stage : CloseStage) (caller : Caller)
  | shutdown (stage : ShutdownStage)

/-- `ClientConnection` and its threads: `threads` are all that were ever spawned, and a handle is a
place in that list. -/
structure Client where
  shared : Shared
  reconnectThread : Option Nat
  threads : List ReconnectPc
  session : SessionPc

/-- What the session thread does next: a call if it is in none, and otherwise its next step. -/
inductive SessionMove where
  | writePacket (packet : Packet)
  | readPacket
  | closeAndMaybeReconnect
  | shutdown
  | step
  | write (results : List IoResult)
  | read (incoming : Bytes) (results : List IoResult)

inductive ClientAction where
  | session (move : SessionMove)
  | thread (index : Nat) (answer : Answer)

inductive ClientEvent where
  | called (packet : Packet)
  /-- A packet entered the log. -/
  | accepted (entry : Accepted)
  /-- What a `write` put on a connection. -/
  | sent (socket : TcpStream) (bytes : Bytes)
  /-- `write_packet` returned. -/
  | returned (result : Bool)
  | reconnect (thread : Nat) (event : ReconnectEvent)

namespace Client

/-- The state after a successful `connect`. -/
def connected (readerCrypto writerCrypto : CryptoHandler) : Client where
  shared :=
    { reader := some (BackedReader.new readerCrypto ⟨0⟩)
      writer := some (BackedWriter.new writerCrypto ⟨0⟩)
      socketAlive := true
      shuttingDown := false
      connections := 1 }
  reconnectThread := none
  threads := []
  session := .idle

/-- What a `write` shows. -/
def writeEvents (before : BackedWriter) (packet : Packet) (out : WriteOutput) : List ClientEvent :=
  match out.pushed with
  | none => []
  | some stored =>
    .accepted ⟨out.writer.crypto.nonce, packet, stored⟩ ::
      match before.socket with
      | some socket => [.sent socket out.sent]
      | none => []

/-- What `write_packet` does with the state that `write` returned. -/
def afterWrite (packet : Packet) : WriteState → SessionPc × List ClientEvent
  | .success => (.idle, [.returned true])
  | .bufferedOnly => (.idle, [.returned true])
  | .wroteWithFailure => (.closing .takeHandle (.writePacket packet), [])
  | .skipped => (.writeCheck packet, [])

/-- The critical section of `write_packet`. -/
def writeStep (client : Client) (packet : Packet) (results : List IoResult) :
    Client × List ClientEvent :=
  match client.shared.writer with
  | none =>
    let (session, events) := afterWrite packet .skipped
    ({ client with session }, events)
  | some writer =>
    let out := writer.write packet results
    let (session, events) := afterWrite packet out.state
    ({ client with session, shared := { client.shared with writer := some out.writer } },
      writeEvents writer packet out ++ events)

/-- The critical section of `read_packet`, with what follows it. -/
def readStep (client : Client) (incoming : Bytes) (results : List IoResult) : Client :=
  match client.shared.reader with
  | none => { client with session := .idle }
  | some reader =>
    let out := reader.read incoming results
    let shared := { client.shared with reader := some out.reader }
    match out.result with
    | .ok _ => { client with shared, session := .idle }
    | .error _ => { client with shared, session := .closing .takeHandle .other }

/-- Where `close_and_maybe_reconnect` returns to. -/
def returnTo : Caller → SessionPc
  | .writePacket packet => .writeCheck packet
  | .other => .idle

def closeStep (client : Client) (caller : Caller) : CloseStage → Option Client
  | .takeHandle =>
    match client.reconnectThread with
    | some thread =>
      some { client with reconnectThread := none, session := .closing (.joining thread) caller }
    | none => some { client with session := .closing .invalidateReader caller }
  | .joining thread =>
    if client.threads[thread]? = some .finished then
      some { client with session := .closing .invalidateReader caller }
    else none
  | .invalidateReader =>
    some { client with
      shared := { client.shared with
        reader := client.shared.reader.map BackedReader.invalidateSocket }
      session := .closing .invalidateWriter caller }
  | .invalidateWriter =>
    some { client with
      shared := { client.shared with
        writer := client.shared.writer.map BackedWriter.invalidateSocket }
      session := .closing .clearAlive caller }
  | .clearAlive =>
    some { client with
      shared := { client.shared with socketAlive := false }
      session := .closing .maybeSpawn caller }
  | .maybeSpawn =>
    if client.shared.shuttingDown then some { client with session := returnTo caller }
    else
      some { client with
        threads := client.threads ++ [.loopHead]
        session := .closing (.storeHandle client.threads.length) caller }
  | .storeHandle thread =>
    some { client with reconnectThread := some thread, session := returnTo caller }

def shutdownStep (client : Client) : ShutdownStage → Option Client
  | .setFlag =>
    some { client with
      shared := { client.shared with shuttingDown := true }
      session := .shutdown .takeHandle }
  | .takeHandle =>
    match client.reconnectThread with
    | some thread =>
      some { client with reconnectThread := none, session := .shutdown (.joining thread) }
    | none => some { client with session := .shutdown .clearReader }
  | .joining thread =>
    if client.threads[thread]? = some .finished then
      some { client with session := .shutdown .clearReader }
    else none
  | .clearReader =>
    some { client with
      shared := { client.shared with reader := none }
      session := .shutdown .clearWriter }
  | .clearWriter =>
    some { client with
      shared := { client.shared with writer := none }
      session := .shutdown .clearAlive }
  | .clearAlive =>
    some { client with
      shared := { client.shared with socketAlive := false }
      session := .idle }

def sessionStep (client : Client) : SessionPc → SessionMove → Option (Client × List ClientEvent)
  | .idle, .writePacket packet =>
    some ({ client with session := .writeCheck packet }, [.called packet])
  | .idle, .readPacket => some ({ client with session := .readLocked }, [])
  | .idle, .closeAndMaybeReconnect =>
    some ({ client with session := .closing .takeHandle .other }, [])
  | .idle, .shutdown => some ({ client with session := .shutdown .setFlag }, [])
  | .writeCheck packet, .step =>
    if client.shared.shuttingDown then some ({ client with session := .idle }, [.returned false])
    else some ({ client with session := .writeLocked packet }, [])
  | .writeLocked packet, .write results => some (client.writeStep packet results)
  | .readLocked, .read incoming results => some (client.readStep incoming results, [])
  | .closing stage caller, .step => (client.closeStep caller stage).map fun next => (next, [])
  | .shutdown stage, .step => (client.shutdownStep stage).map fun next => (next, [])
  | _, _ => none

/-- The client after a step of this reconnect thread. -/
def stepped (client : Client) (index : Nat) (out : ReconnectOutput) : Client :=
  { client with shared := out.shared, threads := client.threads.set index out.pc }

/-- A step of one of the reconnect threads. -/
def threadStep (client : Client) (index : Nat) (answer : Answer) :
    Option (Client × List ClientEvent) :=
  match client.threads[index]? with
  | none => none
  | some pc =>
    (reconnectStep client.shared pc answer).map fun out =>
      (client.stepped index out, out.events.map (.reconnect index))

end Client

def clientMachine : Transducer Client ClientAction ClientEvent := fun client action =>
  match action with
  | .session move => client.sessionStep client.session move
  | .thread index answer => client.threadStep index answer

/-! ### What a step does

The rest of the development knows a step of the session thread through the cases of `SessionSteps`, or,
where only the writer matters, through the two of `SessionEffect`: a step that is no `write` is quiet.
It may take the writer's socket or the writer away and spawn a thread, and shows nothing but the begin
and the end of a call. -/

/-- Nothing but the begin and the end of calls. -/
def Calls (events : List ClientEvent) : Prop :=
  ∀ event ∈ events, (∃ packet, event = .called packet) ∨ ∃ result, event = .returned result

theorem Calls.not_reconnect {events : List ClientEvent} (h : Calls events) (i : Nat)
    (event : ReconnectEvent) : .reconnect i event ∉ events := by
  intro hmem
  obtain ⟨packet, hcalled⟩ | ⟨result, hreturned⟩ := h _ hmem
  · exact absurd hcalled nofun
  · exact absurd hreturned nofun

namespace Client

/-- The ways a step of the session thread can go. -/
inductive SessionSteps (client : Client) :
    SessionPc → SessionMove → Client → List ClientEvent → Prop
  | called (packet : Packet) : SessionSteps client .idle (.writePacket packet)
      { client with session := .writeCheck packet } [.called packet]
  | reads : SessionSteps client .idle .readPacket { client with session := .readLocked } []
  | closes : SessionSteps client .idle .closeAndMaybeReconnect
      { client with session := .closing .takeHandle .other } []
  | shutsDown : SessionSteps client .idle .shutdown { client with session := .shutdown .setFlag } []
  /-- `write_packet` finds that the client is shutting down. -/
  | givesUp {packet} : client.shared.shuttingDown = true → SessionSteps client (.writeCheck packet)
      .step { client with session := .idle } [.returned false]
  | locks {packet} : SessionSteps client (.writeCheck packet) .step
      { client with session := .writeLocked packet } []
  | noWriter {packet results} : client.shared.writer = none →
      SessionSteps client (.writeLocked packet) (.write results)
        { client with session := .writeCheck packet } []
  | writes {packet results writer out} : client.shared.writer = some writer →
      writer.Writes packet results out → SessionSteps client (.writeLocked packet) (.write results)
        { client with
          shared := { client.shared with writer := some out.writer }
          session := (afterWrite packet out.state).1 }
        (writeEvents writer packet out ++ (afterWrite packet out.state).2)
  | noReader {incoming results} : client.shared.reader = none →
      SessionSteps client .readLocked (.read incoming results) { client with session := .idle } []
  | read {incoming results reader out session} : client.shared.reader = some reader →
      reader.Reads incoming results out → session = .idle ∨ session = .closing .takeHandle .other →
      SessionSteps client .readLocked (.read incoming results)
        { client with shared := { client.shared with reader := some out.reader }, session } []
  | closing {stage caller next} : client.closeStep caller stage = some next →
      SessionSteps client (.closing stage caller) .step next []
  | shutdown {stage next} : client.shutdownStep stage = some next →
      SessionSteps client (.shutdown stage) .step next []

theorem readStep_spec (client : Client) (incoming : Bytes) (results : List IoResult) :
    SessionSteps client .readLocked (.read incoming results) (client.readStep incoming results) [] := by
  cases hreader : client.shared.reader with
  | none =>
      simp only [readStep, hreader]
      exact .noReader hreader
  | some reader =>
      have hreads := reader.read_spec incoming results
      simp only [readStep, hreader]
      split
      · exact .read hreader hreads (.inl rfl)
      · exact .read hreader hreads (.inr rfl)

theorem sessionStep_spec {client next : Client} {session : SessionPc} {move : SessionMove}
    {events : List ClientEvent} (h : client.sessionStep session move = some (next, events)) :
    SessionSteps client session move next events := by
  cases session with
  | idle =>
      cases move <;> simp only [sessionStep, Option.some.injEq, Prod.mk.injEq, reduceCtorEq] at h <;>
        obtain ⟨rfl, rfl⟩ := h
      · exact .called _
      · exact .reads
      · exact .closes
      · exact .shutsDown
  | writeCheck packet =>
      cases move <;> simp only [sessionStep, reduceCtorEq] at h
      split_ifs at h with hshut <;> obtain ⟨rfl, rfl⟩ := Prod.mk.inj (Option.some.inj h)
      · exact .givesUp hshut
      · exact .locks
  | writeLocked packet =>
      cases move <;> simp only [sessionStep, Option.some.injEq, reduceCtorEq] at h
      rename_i results
      cases hwriter : client.shared.writer with
      | none =>
          simp only [writeStep, hwriter, afterWrite, Prod.mk.injEq] at h
          obtain ⟨rfl, rfl⟩ := h
          exact .noWriter hwriter
      | some writer =>
          simp only [writeStep, hwriter, Prod.mk.injEq] at h
          obtain ⟨rfl, rfl⟩ := h
          exact .writes hwriter (writer.write_spec packet results)
  | readLocked =>
      cases move <;> simp only [sessionStep, Option.some.injEq, Prod.mk.injEq, reduceCtorEq] at h
      obtain ⟨rfl, rfl⟩ := h
      exact client.readStep_spec _ _
  | closing stage caller =>
      cases move <;> simp only [sessionStep, Option.map_eq_some_iff, Prod.mk.injEq, reduceCtorEq] at h
      obtain ⟨_, hclose, rfl, rfl⟩ := h
      exact .closing hclose
  | shutdown stage =>
      cases move <;> simp only [sessionStep, Option.map_eq_some_iff, Prod.mk.injEq, reduceCtorEq] at h
      obtain ⟨_, hshutdown, rfl, rfl⟩ := h
      exact .shutdown hshutdown

structure Quiet (client next : Client) : Prop where
  writer : next.shared.writer = client.shared.writer
    ∨ next.shared.writer = client.shared.writer.map BackedWriter.invalidateSocket
    ∨ next.shared.writer = none
  connections : next.shared.connections = client.shared.connections
  threads : next.threads = client.threads ∨ next.threads = client.threads ++ [.loopHead]

/-- What a step of the session thread means to the writer and the reconnect threads. -/
inductive SessionEffect (client : Client) : Client → List ClientEvent → Prop
  | quiet {next events} : Quiet client next → Calls events → SessionEffect client next events
  | writes {writer packet results out session events} : client.shared.writer = some writer →
      writer.Writes packet results out → Calls events → SessionEffect client
        { client with shared := { client.shared with writer := some out.writer }, session }
        (writeEvents writer packet out ++ events)

theorem closeStep_quiet {client next : Client} {caller : Caller} {stage : CloseStage}
    (h : client.closeStep caller stage = some next) : Quiet client next := by
  cases stage with
  | takeHandle =>
      simp only [closeStep] at h
      split at h <;> obtain rfl := Option.some.inj h <;> exact ⟨.inl rfl, rfl, .inl rfl⟩
  | joining thread =>
      simp only [closeStep] at h
      split_ifs at h
      obtain rfl := Option.some.inj h
      exact ⟨.inl rfl, rfl, .inl rfl⟩
  | invalidateWriter =>
      obtain rfl := Option.some.inj h
      exact ⟨.inr (.inl rfl), rfl, .inl rfl⟩
  | maybeSpawn =>
      simp only [closeStep] at h
      split_ifs at h <;> obtain rfl := Option.some.inj h
      · exact ⟨.inl rfl, rfl, .inl rfl⟩
      · exact ⟨.inl rfl, rfl, .inr rfl⟩
  | _ =>
      obtain rfl := Option.some.inj h
      exact ⟨.inl rfl, rfl, .inl rfl⟩

theorem closeStep_session {client next : Client} {caller : Caller} {stage : CloseStage}
    (h : client.closeStep caller stage = some next) :
    (∃ stage', next.session = .closing stage' caller) ∨ next.session = returnTo caller := by
  cases stage with
  | takeHandle =>
      simp only [closeStep] at h
      split at h <;> obtain rfl := Option.some.inj h <;> exact .inl ⟨_, rfl⟩
  | joining thread =>
      simp only [closeStep] at h
      split_ifs at h
      obtain rfl := Option.some.inj h
      exact .inl ⟨_, rfl⟩
  | maybeSpawn =>
      simp only [closeStep] at h
      split_ifs at h <;> obtain rfl := Option.some.inj h
      · exact .inr rfl
      · exact .inl ⟨_, rfl⟩
  | storeHandle thread =>
      obtain rfl := Option.some.inj h
      exact .inr rfl
  | _ =>
      obtain rfl := Option.some.inj h
      exact .inl ⟨_, rfl⟩

theorem shutdownStep_quiet {client next : Client} {stage : ShutdownStage}
    (h : client.shutdownStep stage = some next) : Quiet client next := by
  cases stage with
  | takeHandle =>
      simp only [shutdownStep] at h
      split at h <;> obtain rfl := Option.some.inj h <;> exact ⟨.inl rfl, rfl, .inl rfl⟩
  | joining thread =>
      simp only [shutdownStep] at h
      split_ifs at h
      obtain rfl := Option.some.inj h
      exact ⟨.inl rfl, rfl, .inl rfl⟩
  | clearWriter =>
      obtain rfl := Option.some.inj h
      exact ⟨.inr (.inr rfl), rfl, .inl rfl⟩
  | _ =>
      obtain rfl := Option.some.inj h
      exact ⟨.inl rfl, rfl, .inl rfl⟩

theorem afterWrite_calls (packet : Packet) (state : WriteState) :
    Calls (afterWrite packet state).2 := by
  intro event hmem
  cases state <;> simp only [afterWrite, List.mem_singleton, List.not_mem_nil] at hmem
  · exact .inr ⟨true, hmem⟩
  · exact .inr ⟨true, hmem⟩

theorem SessionSteps.effect {client next : Client} {session : SessionPc} {move : SessionMove}
    {events : List ClientEvent} (h : SessionSteps client session move next events) :
    SessionEffect client next events := by
  cases h with
  | writes hwriter hwrites => exact .writes hwriter hwrites (afterWrite_calls _ _)
  | closing hclose => exact .quiet (closeStep_quiet hclose) (by simp [Calls])
  | shutdown hshutdown => exact .quiet (shutdownStep_quiet hshutdown) (by simp [Calls])
  | _ => exact .quiet ⟨.inl rfl, rfl, .inl rfl⟩ (by simp [Calls])

theorem SessionEffect.threads {client next : Client} {events : List ClientEvent}
    (h : SessionEffect client next events) : client.threads <+: next.threads := by
  cases h with
  | quiet hquiet hcalls =>
      rcases hquiet.threads with hsame | hspawn
      · exact hsame ▸ List.prefix_rfl
      · rw [hspawn]
        exact List.prefix_append _ _
  | writes hwriter hwrites hcalls => exact List.prefix_rfl

theorem SessionEffect.not_reconnect {client next : Client} {events : List ClientEvent}
    (h : SessionEffect client next events) (i : Nat) (event : ReconnectEvent) :
    .reconnect i event ∉ events := by
  cases h with
  | quiet hquiet hcalls => exact hcalls.not_reconnect i event
  | @writes writer packet results out session events hwriter hwrites hcalls =>
      intro hmem
      rcases List.mem_append.mp hmem with hwrite | hcall
      · simp only [writeEvents] at hwrite
        split at hwrite
        · simp at hwrite
        · split at hwrite <;> simp at hwrite
      · exact hcalls.not_reconnect i event hcall

theorem threadStep_eq_some {client next : Client} {index : Nat} {answer : Answer}
    {events : List ClientEvent} (h : client.threadStep index answer = some (next, events)) :
    ∃ pc out, client.threads[index]? = some pc ∧ Reconnects client.shared pc out
      ∧ next = client.stepped index out ∧ events = out.events.map (.reconnect index) := by
  unfold threadStep at h
  cases hpc : client.threads[index]? with
  | none => simp [hpc] at h
  | some pc =>
      simp only [hpc, Option.map_eq_some_iff, Prod.mk.injEq] at h
      obtain ⟨out, hout, rfl, rfl⟩ := h
      exact ⟨pc, out, rfl, reconnectStep_spec hout, rfl, rfl⟩

end Client

end EternalTerminal
