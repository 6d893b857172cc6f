import EternalTerminal.Session.LiveSession

/-!
# A session and its server

The session with a peer at the other end of its connections. All that there is of the server is what it
sends: it writes through a backed writer, as the client does, and answers the position that a reconnecting
client sends with what its writer recovers. The network keeps the bytes of the newest connection in order,
and may lose the rest of them at any time.
-/

namespace EternalTerminal

/-- Where the exchange of a position for a catch-up is. -/
inductive Exchange where
  | idle
  /-- The client has sent its position. -/
  | asked (remoteSeq : Int)
  /-- The server has sent its catch-up. -/
  | answered (catchup : List Bytes)

structure ServedSession where
  session : LiveSession
  server : BackedWriter
  /-- Written by the server on the newest connection and not delivered. -/
  inFlight : Bytes
  /-- Delivered and not read. -/
  incoming : Bytes
  exchange : Exchange

inductive ServedAction where
  /-- The server writes a packet. -/
  | write (packet : Packet) (results : List IoResult)
  | deliver (count : Nat)
  /-- The server loses its socket. -/
  | drop
  /-- The server answers the position it was sent, and goes on with the new connection. -/
  | recover (socket : TcpStream)
  | live (action : LiveAction)

inductive ServedEvent where
  /-- A packet entered the log of the server. -/
  | accepted (entry : Accepted)
  | live (event : LiveEvent)

namespace ServedSession

/-- The session after `connect`, and the server that has accepted it. -/
def start (opts : ClientOptions) (readerCrypto writerCrypto : CryptoHandler) : ServedSession where
  session := LiveSession.start opts readerCrypto writerCrypto
  server := BackedWriter.new readerCrypto ⟨0⟩
  inFlight := []
  incoming := []
  exchange := .idle

/-- What an answer to a reconnect thread makes of the exchange; `none` if the server gives no such
answer. -/
def exchanges (exchange : Exchange) : ReconnectPc → Answer → Option Exchange
  | .sendingSequence _ localSeq, .done => some (.asked (remoteSequence (sequenceHeader localSeq)))
  | .awaitingCatchup _ _ _, .catchup cb =>
    match exchange with
    | .answered catchup => if cb.buffer = catchup then some .idle else none
    | _ => none
  | _, _ => some exchange

/-- What a step of a call leaves of the bytes that have arrived; `none` if it finds others. -/
def leaves (s : ServedSession) : SessionMove → Option Bytes
  | .read incoming results =>
    if incoming = s.incoming then
      match s.session.client.shared.reader with
      | some reader => some (reader.read incoming results).incoming
      | none => some incoming
    else none
  | _ => some s.incoming

/-- The exchange and the bytes after a step of the session, if server and network let it be. -/
def network (s : ServedSession) : LiveAction → Option (Exchange × Bytes)
  | .thread index answer =>
    match s.session.client.threads[index]? with
    | some pc => (exchanges s.exchange pc answer).map fun exchange => (exchange, s.incoming)
    | none => none
  | .inside move => (s.leaves move).map fun incoming => (s.exchange, incoming)
  | _ => some (s.exchange, s.incoming)

end ServedSession

def servedMachine (memory : Memory) : Transducer ServedSession ServedAction ServedEvent := fun s action =>
  match action with
  | .write packet results =>
    let out := s.server.write packet results
    some ({ s with server := out.writer, inFlight := s.inFlight ++ out.sent },
      out.pushed.toList.map fun stored => .accepted ⟨out.writer.crypto.nonce, packet, stored⟩)
  | .deliver count =>
    some ({ s with
      inFlight := s.inFlight.drop count
      incoming := s.incoming ++ s.inFlight.take count }, [])
  | .drop => some ({ s with server := s.server.invalidateSocket }, [])
  | .recover socket =>
    match s.exchange with
    | .asked remoteSeq =>
      match s.server.recover remoteSeq with
      | .ok catchup =>
        some ({ s with
          server := s.server.revive socket
          inFlight := []
          incoming := []
          exchange := .answered catchup }, [])
      | .error _ => none
    | _ => none
  | .live action =>
    match s.network action, liveMachine memory s.session action with
    | some (exchange, incoming), some (session, events) =>
      some ({ s with session, exchange, incoming }, events.map .live)
    | _, _ => none

namespace ServedEvent

def accepted? : ServedEvent → Option Accepted
  | accepted entry => some entry
  | _ => none

def live? : ServedEvent → Option LiveEvent
  | live event => some event
  | _ => none

end ServedEvent

namespace ServedSession

/-- The log of the server. -/
def log (events : List ServedEvent) : List Accepted := events.filterMap ServedEvent.accepted?

/-- What the session has shown. -/
def shown (events : List ServedEvent) : List LiveEvent := events.filterMap ServedEvent.live?

theorem log_append (before after : List ServedEvent) : log (before ++ after) = log before ++ log after :=
  List.filterMap_append

theorem shown_append (before after : List ServedEvent) :
    shown (before ++ after) = shown before ++ shown after :=
  List.filterMap_append

@[simp] theorem log_accepted (entries : List Accepted) : log (entries.map .accepted) = entries := by
  simp [log, Function.comp_def, ServedEvent.accepted?]

@[simp] theorem log_live (events : List LiveEvent) : log (events.map .live) = [] := by
  simp [log, List.filterMap_eq_nil_iff, ServedEvent.accepted?]

@[simp] theorem shown_accepted (entries : List Accepted) : shown (entries.map .accepted) = [] := by
  simp [shown, List.filterMap_eq_nil_iff, ServedEvent.live?]

@[simp] theorem shown_live (events : List LiveEvent) : shown (events.map .live) = events := by
  simp [shown, Function.comp_def, ServedEvent.live?]

/-- The ways a step can go. -/
inductive Serves (memory : Memory) (s : ServedSession) :
    ServedAction → ServedSession → List ServedEvent → Prop
  | writes {packet results out} : s.server.Writes packet results out →
      Serves memory s (.write packet results)
        { s with server := out.writer, inFlight := s.inFlight ++ out.sent }
        ((out.pushed.toList.map fun stored =>
          (⟨out.writer.crypto.nonce, packet, stored⟩ : Accepted)).map .accepted)
  | delivers (count : Nat) : Serves memory s (.deliver count)
      { s with
        inFlight := s.inFlight.drop count
        incoming := s.incoming ++ s.inFlight.take count } []
  | drops : Serves memory s .drop { s with server := s.server.invalidateSocket } []
  | recovers {socket remoteSeq catchup} : s.exchange = .asked remoteSeq →
      s.server.recover remoteSeq = .ok catchup →
      Serves memory s (.recover socket)
        { s with
          server := s.server.revive socket
          inFlight := []
          incoming := []
          exchange := .answered catchup } []
  | lives {action exchange incoming session events} : s.network action = some (exchange, incoming) →
      liveMachine memory s.session action = some (session, events) →
      Serves memory s (.live action) { s with session, exchange, incoming } (events.map .live)

theorem servedStep_spec {memory : Memory} {s next : ServedSession} {action : ServedAction}
    {events : List ServedEvent} (h : servedMachine memory s action = some (next, events)) :
    Serves memory s action next events := by
  cases action with
  | write packet results =>
      obtain ⟨rfl, rfl⟩ := Prod.mk.inj (Option.some.inj h)
      have hwrites : Serves memory s (.write packet results) _ _ :=
        .writes (s.server.write_spec packet results)
      rwa [List.map_map] at hwrites
  | deliver count =>
      obtain ⟨rfl, rfl⟩ := Prod.mk.inj (Option.some.inj h)
      exact .delivers count
  | drop =>
      obtain ⟨rfl, rfl⟩ := Prod.mk.inj (Option.some.inj h)
      exact .drops
  | recover socket =>
      simp only [servedMachine] at h
      split at h
      · next remoteSeq hasked =>
          split at h
          · next catchup hrecover =>
              obtain ⟨rfl, rfl⟩ := Prod.mk.inj (Option.some.inj h)
              exact .recovers hasked hrecover
          · cases h
      · cases h
  | live action =>
      simp only [servedMachine] at h
      split at h
      · next exchange incoming session events hnetwork hlive =>
          obtain ⟨rfl, rfl⟩ := Prod.mk.inj (Option.some.inj h)
          exact .lives hnetwork hlive
      · cases h

end ServedSession

end EternalTerminal
