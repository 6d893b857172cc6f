import EternalTerminal.Proof.ClientEvents
import EternalTerminal.Session.LiveSession

/-!
# A session and the server that hears it

The session with a peer that reads what it writes. All that there is of the server is what it hears: it
reads through a backed reader, as the client does, tells a connection that it accepts its position, and
takes the catch-up that comes back. Only what is written on the connection accepted last arrives, in
order, and any of it may be lost with that connection.
-/

namespace EternalTerminal

/-- Where the server is with the connection accepted last. -/
inductive Handover where
  | settled
  /-- The server has sent its position. -/
  | told (position : Int)
  /-- The client has sent its catch-up. -/
  | offered (catchup : List Bytes)

structure HeardSession where
  session : LiveSession
  server : BackedReader
  /-- The connection that the server has accepted last. -/
  connection : TcpStream
  /-- Written on that connection and not delivered. -/
  inFlight : Bytes
  /-- Delivered and not read. -/
  incoming : Bytes
  handover : Handover

inductive HeardAction where
  /-- The server goes over to the newest connection and sends its position. -/
  | accept
  /-- The server takes the catch-up and goes on with the connection. -/
  | revive
  | deliver (count : Nat)
  | read (results : List IoResult)
  /-- The server loses its socket. -/
  | drop
  | live (action : LiveAction)

inductive HeardEvent where
  /-- The server reads a packet. -/
  | heard (packet : Packet)
  /-- A read of the server fails. -/
  | failed (e : Error)
  | live (event : LiveEvent)

/-- What a `read` of the server shows. -/
def heardEvents : Except Error (Option Packet) → List HeardEvent
  | .ok (some packet) => [.heard packet]
  | .ok none => []
  | .error e => [.failed e]

namespace HeardSession

/-- The session after `connect`, and the server that has accepted it. -/
def start (opts : ClientOptions) (readerCrypto writerCrypto : CryptoHandler) : HeardSession where
  session := LiveSession.start opts readerCrypto writerCrypto
  server := BackedReader.new writerCrypto ⟨0⟩
  connection := ⟨0⟩
  inFlight := []
  incoming := []
  handover := .settled

/-- What an answer to a reconnect thread makes of the handover: a thread is told the position that the
server has sent on its connection and no other, and the catch-up it sends there is offered. -/
def tells (s : HeardSession) : ReconnectPc → Answer → Option Handover
  | .awaitingSequence socket, .sequence remote =>
    match s.handover with
    | .told position =>
      if socket = s.connection ∧ remote = sequenceHeader position then some (.told position) else none
    | _ => none
  | .sendingCatchup socket _ entries, .done =>
    some (if socket = s.connection then .offered entries else s.handover)
  | _, _ => some s.handover

/-- The handover after a step of the session, if the server lets it be. -/
def handsOver (s : HeardSession) : LiveAction → Option Handover
  | .thread index answer =>
    match s.session.client.threads[index]? with
    | some pc => s.tells pc answer
    | none => none
  | _ => some s.handover

end HeardSession

/-- What a step of the session put on this connection. -/
def putOn (connection : TcpStream) (events : List LiveEvent) : Bytes :=
  sentOn connection (events.filterMap LiveEvent.client?)

def heardMachine (memory : Memory) : Transducer HeardSession HeardAction HeardEvent := fun s action =>
  match action with
  | .accept =>
    if s.connection.connection + 1 < s.session.client.shared.connections then
      some ({ s with
        server := s.server.invalidateSocket
        connection := ⟨s.session.client.shared.connections - 1⟩
        inFlight := []
        incoming := []
        handover := .told s.server.sequenceNumber }, [])
    else none
  | .revive =>
    match s.handover with
    | .offered catchup =>
      some ({ s with server := s.server.revive s.connection catchup, handover := .settled }, [])
    | _ => none
  | .deliver count =>
    some ({ s with
      inFlight := s.inFlight.drop count
      incoming := s.incoming ++ s.inFlight.take count }, [])
  | .read results =>
    let out := s.server.read s.incoming results
    some ({ s with server := out.reader, incoming := out.incoming }, heardEvents out.result)
  | .drop => some ({ s with server := s.server.invalidateSocket }, [])
  | .live action =>
    match s.handsOver action, liveMachine memory s.session action with
    | some handover, some (session, events) =>
      some ({ s with session, handover, inFlight := s.inFlight ++ putOn s.connection events },
        events.map .live)
    | _, _ => none

namespace HeardEvent

def heard? : HeardEvent → Option Packet
  | heard packet => some packet
  | _ => none

def live? : HeardEvent → Option LiveEvent
  | live event => some event
  | _ => none

end HeardEvent

namespace HeardSession

/-- What the server has read. -/
def heard (events : List HeardEvent) : List Packet := events.filterMap HeardEvent.heard?

/-- What the session has shown. -/
def shown (events : List HeardEvent) : List LiveEvent := events.filterMap HeardEvent.live?

/-- The log of the client. -/
def log (events : List HeardEvent) : List Accepted :=
  clientAccepted ((shown events).filterMap LiveEvent.client?)

theorem heard_append (before after : List HeardEvent) :
    heard (before ++ after) = heard before ++ heard after :=
  List.filterMap_append

theorem shown_append (before after : List HeardEvent) :
    shown (before ++ after) = shown before ++ shown after :=
  List.filterMap_append

theorem log_append (before after : List HeardEvent) : log (before ++ after) = log before ++ log after := by
  rw [log, shown_append, List.filterMap_append, clientAccepted_append]
  rfl

@[simp] theorem heard_live (events : List LiveEvent) : heard (events.map .live) = [] := by
  simp [heard, List.filterMap_eq_nil_iff, HeardEvent.heard?]

@[simp] theorem shown_live (events : List LiveEvent) : shown (events.map .live) = events := by
  simp [shown, Function.comp_def, HeardEvent.live?]

@[simp] theorem shown_heardEvents (result : Except Error (Option Packet)) :
    shown (heardEvents result) = [] := by
  rcases result with _ | _ | _ <;> rfl

/-- The ways a step can go. -/
inductive Hearkens (memory : Memory) (s : HeardSession) :
    HeardAction → HeardSession → List HeardEvent → Prop
  | accepts : s.connection.connection + 1 < s.session.client.shared.connections →
      Hearkens memory s .accept
        { s with
          server := s.server.invalidateSocket
          connection := ⟨s.session.client.shared.connections - 1⟩
          inFlight := []
          incoming := []
          handover := .told s.server.sequenceNumber } []
  | revives {catchup} : s.handover = .offered catchup →
      Hearkens memory s .revive
        { s with server := s.server.revive s.connection catchup, handover := .settled } []
  | delivers (count : Nat) : Hearkens memory s (.deliver count)
      { s with
        inFlight := s.inFlight.drop count
        incoming := s.incoming ++ s.inFlight.take count } []
  | reads {results out} : s.server.Reads s.incoming results out →
      Hearkens memory s (.read results) { s with server := out.reader, incoming := out.incoming }
        (heardEvents out.result)
  | drops : Hearkens memory s .drop { s with server := s.server.invalidateSocket } []
  | lives {action handover session events} : s.handsOver action = some handover →
      liveMachine memory s.session action = some (session, events) →
      Hearkens memory s (.live action)
        { s with session, handover, inFlight := s.inFlight ++ putOn s.connection events }
        (events.map .live)

theorem heardStep_spec {memory : Memory} {s next : HeardSession} {action : HeardAction}
    {events : List HeardEvent} (h : heardMachine memory s action = some (next, events)) :
    Hearkens memory s action next events := by
  cases action with
  | accept =>
      simp only [heardMachine] at h
      split_ifs at h with hnewer
      obtain ⟨rfl, rfl⟩ := Prod.mk.inj (Option.some.inj h)
      exact .accepts hnewer
  | revive =>
      simp only [heardMachine] at h
      split at h
      · next catchup hoffered =>
          obtain ⟨rfl, rfl⟩ := Prod.mk.inj (Option.some.inj h)
          exact .revives hoffered
      · cases h
  | deliver count =>
      obtain ⟨rfl, rfl⟩ := Prod.mk.inj (Option.some.inj h)
      exact .delivers count
  | read results =>
      obtain ⟨rfl, rfl⟩ := Prod.mk.inj (Option.some.inj h)
      exact .reads (s.server.read_spec s.incoming results)
  | drop =>
      obtain ⟨rfl, rfl⟩ := Prod.mk.inj (Option.some.inj h)
      exact .drops
  | live action =>
      simp only [heardMachine] at h
      split at h
      · next handover session events hhandover hlive =>
          obtain ⟨rfl, rfl⟩ := Prod.mk.inj (Option.some.inj h)
          exact .lives hhandover hlive
      · cases h

end HeardSession

end EternalTerminal
