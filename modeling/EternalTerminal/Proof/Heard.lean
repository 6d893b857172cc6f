import EternalTerminal.Proof.Hearing
import EternalTerminal.Proof.LiveLog
import EternalTerminal.Session.HeardSession

/-!
# What the server hears of its session

The server may take the catch-up of a connection before the client's writer goes over to it, or after
that, when frames have arrived already. What carries the proof through is that the server's reader would
be linked to the writer if it were revived with the catch-up that is offered, and that it stays so. Only
the revival of the writer can break this: a packet that was accepted since `recover` is neither in the
catch-up nor on the connection.
-/

namespace EternalTerminal

/-! ### A writer and the server -/

namespace Linked

variable {cipher : Cipher} {start : Nonce} {link : Link} {log : List Accepted}
  {delivered : List Packet}

theorem reroute (h : Linked cipher start link log delivered) (hcut : link.reader.socket = none)
    (inFlight incoming : Bytes) :
    Linked cipher start { link with inFlight, incoming } log delivered :=
  ⟨h.logs, h.cipher_eq, h.nonce_eq, h.delivered_eq, h.queue_eq, h.sequence_eq, h.sequence_le,
    fun hlive => absurd hcut hlive⟩

/-- What a writer without a socket recovers is what the reader lacks. -/
theorem recovered (h : Linked cipher start link log delivered) {catchup : List Bytes}
    (hrecover : link.writer.recover link.reader.sequenceNumber = .ok catchup)
    (hcut : link.writer.socket = none) (socket : TcpStream) :
    Linked cipher start ⟨link.writer, link.reader.revive socket catchup, [], []⟩ log delivered := by
  have hboth := h.recover hrecover socket
  refine ⟨h.logs, hboth.cipher_eq, hboth.nonce_eq, hboth.delivered_eq, hboth.queue_eq,
    hboth.sequence_eq, hboth.sequence_le, fun hlive => ?_⟩
  obtain ⟨hframe, lost, hstream, -⟩ := hboth.stream hlive
  exact ⟨hframe, lost, hstream, fun hwriter => absurd hcut hwriter⟩

/-- The writer can take the connection of a reader that has everything. -/
theorem join (h : Linked cipher start link log delivered)
    (hall : link.reader.socket ≠ none → (log.length : Int) ≤ link.reader.sequenceNumber)
    (socket : TcpStream) :
    Linked cipher start { link with writer := link.writer.revive socket } log delivered := by
  refine ⟨h.logs.revive socket, h.cipher_eq, h.nonce_eq, h.delivered_eq, h.queue_eq, h.sequence_eq,
    h.sequence_le, fun hlive => ?_⟩
  obtain ⟨hframe, lost, hstream, -⟩ := h.stream hlive
  have hrest : log.drop (delivered.length + link.reader.localBuffer.length) = [] := by
    have hsequence := h.sequence_eq
    have hlong := hall hlive
    exact List.drop_eq_nil_of_le (by omega)
  have hlost : lost = [] := by
    rw [hrest, frames_nil] at hstream
    exact (List.append_eq_nil_iff.mp hstream).2
  exact ⟨hframe, lost, hstream, fun _ => hlost⟩

end Linked

/-! ### A thread and the position it is told -/

namespace ReconnectPc

/-- The position of the server, as long as it has not sent the catch-up for it. -/
def told? : ReconnectPc → Option Int
  | .recovering _ remoteSeq => some remoteSeq
  | .sendingCatchup _ remoteSeq _ => some remoteSeq
  | _ => none

theorem socket_of_touch {pc : ReconnectPc} (h : pc.told? ≠ none ∨ pc.sentCatchup? ≠ none) :
    ∃ socket, pc.socket? = some socket := by
  cases pc <;> first | exact ⟨_, rfl⟩ | exact absurd rfl (h.resolve_left fun hnot => hnot rfl)

theorem told_of_held {pc : ReconnectPc} {position : Int} {entries : List Bytes}
    (h : pc.heldCatchup? = some (position, entries)) : pc.told? = some position := by
  cases pc <;> first | (cases h; rfl) | cases h

/-- The writer is where the catch-up ends, if it is the next to be revived. -/
def findsInStep (writer : BackedWriter) : ReconnectPc → Bool
  | .revivingWriter _ remoteSeq entries => writer.sequenceNumber == remoteSeq + entries.length
  | _ => true

end ReconnectPc

/-- What a step of a thread does to the writer and to the handover. -/
inductive Outbound (s : HeardSession) (shared : Shared) (pc : ReconnectPc) :
    ReconnectOutput → Handover → Prop
  | keeps {out} : out.shared.writer = shared.writer → out.pc.told? = none →
      out.pc.sentCatchup? = none → (out.shared.connections ≠ shared.connections → pc.Trying) →
      Outbound s shared pc out s.handover
  | hears {position} : s.handover = .told position → pc.Trying →
      Outbound s shared pc ⟨shared, .recovering s.connection
        (remoteSequence (sequenceHeader position)), []⟩ (.told position)
  | recovers {socket position entries} : pc = .recovering socket position →
      catchupOut shared.writer position = .ok entries →
      Outbound s shared pc ⟨shared, .sendingCatchup socket position entries, []⟩ s.handover
  | offers {socket position entries} : pc = .sendingCatchup socket position entries →
      Outbound s shared pc ⟨shared, .awaitingCatchup socket position entries,
        [.catchup socket position entries]⟩
        (if socket = s.connection then .offered entries else s.handover)
  | holds {out sent} : pc.sentCatchup? = some sent → out.pc.sentCatchup? = some sent →
      out.pc.socket? = pc.socket? → out.pc.told? = none → out.shared.writer = shared.writer →
      out.shared.connections = shared.connections → Outbound s shared pc out s.handover
  | revives {socket position entries} : pc = .revivingWriter socket position entries →
      Outbound s shared pc
        ⟨{ shared with writer := shared.writer.map fun writer => writer.revive socket }, .recovered,
          [.revived]⟩ s.handover

theorem outbound_spec {s : HeardSession} {shared : Shared} {handover : Handover} {pc : ReconnectPc}
    {answer : Answer} {out : ReconnectOutput} (hstep : reconnectStep shared pc answer = some out)
    (htells : s.tells pc answer = some handover) : Outbound s shared pc out handover := by
  cases pc with
  | awaitingSequence socket =>
      cases answer <;> simp only [reconnectStep, Option.some.injEq, reduceCtorEq] at hstep <;>
        obtain rfl := hstep
      · obtain rfl := Option.some.inj htells
        exact .keeps rfl rfl rfl fun hnew => absurd rfl hnew
      · simp only [HeardSession.tells] at htells
        split at htells
        · next position htold =>
            split_ifs at htells with hsame
            obtain ⟨rfl, rfl⟩ := hsame
            obtain rfl := Option.some.inj htells
            exact .hears htold ⟨by simp, by simp, id⟩
        · cases htells
  | recovering socket position =>
      cases answer <;> simp only [reconnectStep, reduceCtorEq] at hstep
      obtain rfl := Option.some.inj htells
      split at hstep <;> obtain rfl := Option.some.inj hstep
      · next hentries => exact .recovers rfl hentries
      · exact .keeps rfl rfl rfl fun hnew => absurd rfl hnew
  | sendingCatchup socket position entries =>
      cases answer <;> simp only [reconnectStep, Option.some.injEq, reduceCtorEq] at hstep <;>
        obtain rfl := hstep <;> obtain rfl := Option.some.inj htells
      · exact .keeps rfl rfl rfl fun hnew => absurd rfl hnew
      · exact .offers rfl
  | awaitingCatchup socket position entries =>
      cases answer <;> simp only [reconnectStep, Option.some.injEq, reduceCtorEq] at hstep <;>
        obtain rfl := hstep <;> obtain rfl := Option.some.inj htells
      · exact .keeps rfl rfl rfl fun hnew => absurd rfl hnew
      · exact .holds rfl rfl rfl rfl rfl rfl
  | preparing socket position entries catchupIn =>
      cases answer <;> simp only [reconnectStep, Option.some.injEq, reduceCtorEq] at hstep <;>
        obtain rfl := hstep <;> obtain rfl := Option.some.inj htells
      · exact .keeps rfl rfl rfl fun hnew => absurd rfl hnew
      · exact .holds rfl rfl rfl rfl rfl rfl
  | revivingReader socket position entries catchupIn =>
      cases answer <;> simp only [reconnectStep, Option.some.injEq, reduceCtorEq] at hstep
      obtain rfl := hstep
      obtain rfl := Option.some.inj htells
      exact .holds rfl rfl rfl rfl rfl rfl
  | revivingWriter socket position entries =>
      cases answer <;> simp only [reconnectStep, Option.some.injEq, reduceCtorEq] at hstep
      obtain rfl := hstep
      obtain rfl := Option.some.inj htells
      exact .revives rfl
  | connecting =>
      cases answer <;> simp only [reconnectStep, Option.some.injEq, reduceCtorEq] at hstep <;>
        obtain rfl := hstep <;> obtain rfl := Option.some.inj htells <;>
        exact .keeps rfl rfl rfl fun _ => ⟨by simp, by simp, id⟩
  | awaitingResponse socket =>
      cases answer <;> simp only [reconnectStep, Option.some.injEq, reduceCtorEq] at hstep <;>
        obtain rfl := Option.some.inj htells
      · exact hstep ▸ .keeps rfl rfl rfl fun hnew => absurd rfl hnew
      · split at hstep <;> obtain rfl := Option.some.inj hstep <;>
          exact .keeps rfl rfl rfl fun hnew => absurd rfl hnew
  | loopHead =>
      cases answer <;> simp only [reconnectStep, Option.some.injEq, reduceCtorEq] at hstep
      obtain rfl := hstep
      obtain rfl := Option.some.inj htells
      refine .keeps rfl ?_ ?_ fun hnew => absurd rfl hnew <;> split_ifs <;> rfl
  | checkShutdown =>
      cases answer <;> simp only [reconnectStep, Option.some.injEq, reduceCtorEq] at hstep
      obtain rfl := hstep
      obtain rfl := Option.some.inj htells
      refine .keeps rfl ?_ ?_ fun hnew => absurd rfl hnew <;> split_ifs <;> rfl
  | _ =>
      cases answer <;> simp only [reconnectStep, Option.some.injEq, reduceCtorEq] at hstep <;>
        obtain rfl := hstep <;> obtain rfl := Option.some.inj htells <;>
        exact .keeps rfl rfl rfl fun hnew => absurd rfl hnew

/-! ### The invariant -/

namespace HeardSession

/-- The client's writer, the network and this reader. -/
def link (s : HeardSession) (writer : BackedWriter) (reader : BackedReader) : Link :=
  ⟨writer, reader, s.inFlight, s.incoming⟩

/-- A catch-up is under way: a thread has it, or has sent it. -/
def Offers (s : HeardSession) (catchup : List Bytes) : Prop :=
  s.handover = .offered catchup
    ∨ ∃ (i : Nat) (pc : ReconnectPc) (position : Int), s.session.client.threads[i]? = some pc
      ∧ pc.heldCatchup? = some (position, catchup)

/-- What a thread has heard of the server and what it has told it is so. -/
structure InTouch (s : HeardSession) (pc : ReconnectPc) : Prop where
  connection : ∀ socket, pc.socket? = some socket → pc.told? ≠ none ∨ pc.sentCatchup? ≠ none →
    socket = s.connection
  told : ∀ position, pc.told? = some position → s.handover = .told position
  sent : ∀ position entries, pc.sentCatchup? = some (position, entries) →
    (s.handover = .offered entries ∧ position ≤ s.server.sequenceNumber)
      ∨ (s.handover = .settled ∧ position + entries.length ≤ s.server.sequenceNumber)

/-- The server is linked to the client's writer, and would be if it took the catch-up under way. -/
structure HeardBy (cipher : Cipher) (start : Nonce) (s : HeardSession) (writer : BackedWriter)
    (log : List Accepted) (heard : List Packet) : Prop where
  writer_eq : s.session.client.shared.writer = some writer
  linked : Linked cipher start (s.link writer s.server) log heard
  plugged : ∀ socket, writer.socket = some socket → socket = s.connection
    ∧ socket.connection + 1 = s.session.client.shared.connections
  told : ∀ position, s.handover = .told position → s.server.socket = none ∧ writer.socket = none
    ∧ s.inFlight = [] ∧ s.incoming = [] ∧ position = s.server.sequenceNumber
  offered : ∀ catchup, s.Offers catchup → s.server.socket = none
    ∧ ∀ socket, Linked cipher start (s.link writer (s.server.revive socket catchup)) log heard
  touch : ∀ (i : Nat) (pc : ReconnectPc), s.session.client.threads[i]? = some pc → s.InTouch pc

theorem start_heardBy (opts : ClientOptions) (readerCrypto writerCrypto : CryptoHandler) :
    HeardBy writerCrypto.cipher writerCrypto.nonce (start opts readerCrypto writerCrypto)
      (BackedWriter.new writerCrypto ⟨0⟩) [] [] where
  writer_eq := rfl
  linked := .new writerCrypto ⟨0⟩
  plugged := by
    intro socket hsocket
    obtain rfl := Option.some.inj hsocket
    exact ⟨rfl, rfl⟩
  told := fun position htold => (by cases htold)
  offered := by
    rintro catchup (hoffered | ⟨i, pc, position, hpc, -⟩)
    · cases hoffered
    · cases hpc
  touch := fun i pc hpc => (by cases hpc)

variable {cipher : Cipher} {start : Nonce} {s next : HeardSession} {writer : BackedWriter}
  {log : List Accepted} {heard : List Packet}

theorem InTouch.of_none {pc : ReconnectPc} (htold : pc.told? = none) (hsent : pc.sentCatchup? = none) :
    s.InTouch pc := by
  refine ⟨fun socket _ hsome => ?_, fun position hposition => ?_, fun position entries hentries => ?_⟩
  · exact absurd htold (hsome.resolve_right fun hnot => hnot hsent)
  · cases htold.symm.trans hposition
  · cases hsent.symm.trans hentries

theorem InTouch.mono {pc : ReconnectPc} (h : s.InTouch pc) (hconnection : next.connection = s.connection)
    (hhandover : next.handover = s.handover)
    (hsequence : s.server.sequenceNumber ≤ next.server.sequenceNumber) : next.InTouch pc := by
  refine ⟨hconnection ▸ h.connection, hhandover ▸ h.told, fun position entries hsent => ?_⟩
  rw [hhandover]
  exact (h.sent position entries hsent).imp (fun hoffered => ⟨hoffered.1, hoffered.2.trans hsequence⟩)
    fun hsettled => ⟨hsettled.1, hsettled.2.trans hsequence⟩

/-! ### The server and the network -/

theorem Offers.of_same {catchup : List Bytes} (h : next.Offers catchup)
    (hsession : next.session = s.session) (hhandover : next.handover = s.handover) :
    s.Offers catchup := by
  unfold Offers at h ⊢
  rwa [hsession, hhandover] at h

/-- The newest connection is new to the server: nothing is on it, and no thread has told it anything. -/
theorem HeardBy.accepts (h : HeardBy cipher start s writer log heard)
    (hnewest : s.session.client.Newest)
    (hnewer : s.connection.connection + 1 < s.session.client.shared.connections) :
    HeardBy cipher start
      { s with
        server := s.server.invalidateSocket
        connection := ⟨s.session.client.shared.connections - 1⟩
        inFlight := []
        incoming := []
        handover := .told s.server.sequenceNumber } writer log heard := by
  have hunplugged : writer.socket = none := by
    by_contra hplugged
    obtain ⟨socket, hsocket⟩ := Option.ne_none_iff_exists'.mp hplugged
    obtain ⟨rfl, hlast⟩ := h.plugged socket hsocket
    omega
  have hnothing : ∀ (i : Nat) (pc : ReconnectPc), s.session.client.threads[i]? = some pc →
      pc.told? = none ∧ pc.sentCatchup? = none := by
    intro i pc hpc
    by_contra hsome
    rw [not_and_or] at hsome
    obtain ⟨socket, hsocket⟩ := ReconnectPc.socket_of_touch hsome
    obtain rfl := (h.touch i pc hpc).connection socket hsocket hsome
    have hlast := hnewest.thread i pc _ hpc hsocket
    omega
  refine ⟨h.writer_eq, (h.linked.dropReader).reroute rfl [] [], fun socket hsocket => ?_, ?_, ?_, ?_⟩
  · cases hunplugged.symm.trans hsocket
  · intro position htold
    obtain rfl := Handover.told.inj htold
    exact ⟨rfl, hunplugged, rfl, rfl, rfl⟩
  · rintro catchup (hoffered | ⟨i, pc, position, hpc, hheld⟩)
    · cases hoffered
    · cases (hnothing i pc hpc).1.symm.trans (ReconnectPc.told_of_held hheld)
  · exact fun i pc hpc => .of_none (hnothing i pc hpc).1 (hnothing i pc hpc).2

theorem HeardBy.revives (h : HeardBy cipher start s writer log heard) {catchup : List Bytes}
    (hoffered : s.handover = .offered catchup) :
    HeardBy cipher start
      { s with server := s.server.revive s.connection catchup, handover := .settled } writer log
      heard := by
  have htold : ∀ (i : Nat) (pc : ReconnectPc) (position : Int),
      s.session.client.threads[i]? = some pc → pc.told? ≠ some position := by
    intro i pc position hpc hposition
    cases ((h.touch i pc hpc).told position hposition).symm.trans hoffered
  refine ⟨h.writer_eq, (h.offered catchup (.inl hoffered)).2 s.connection, h.plugged,
    fun position hnot => ?_, ?_, fun i pc hpc => ?_⟩
  · cases hnot
  · rintro given (hnot | ⟨i, pc, position, hpc, hheld⟩)
    · cases hnot
    · exact absurd (ReconnectPc.told_of_held hheld) (htold i pc position hpc)
  · refine ⟨(h.touch i pc hpc).connection, fun position hposition => ?_, fun position entries hsent => ?_⟩
    · exact absurd hposition (htold i pc position hpc)
    · obtain ⟨hgiven, hle⟩ | ⟨hsettled, -⟩ := (h.touch i pc hpc).sent position entries hsent
      · obtain rfl := Handover.offered.inj (hoffered.symm.trans hgiven)
        exact .inr ⟨rfl, by simpa [BackedReader.revive] using hle⟩
      · cases hsettled.symm.trans hoffered

theorem HeardBy.delivers (h : HeardBy cipher start s writer log heard) (count : Nat) :
    HeardBy cipher start
      { s with
        inFlight := s.inFlight.drop count
        incoming := s.incoming ++ s.inFlight.take count } writer log heard := by
  refine ⟨h.writer_eq, h.linked.deliver count, h.plugged, fun position htold => ?_,
    fun catchup hoffers => ?_, fun i pc hpc => (h.touch i pc hpc).mono rfl rfl le_rfl⟩
  · obtain ⟨hcut, hunplugged, hinFlight, hincoming, hposition⟩ := h.told position htold
    exact ⟨hcut, hunplugged, by simp [hinFlight], by simp [hinFlight, hincoming], hposition⟩
  · obtain ⟨hcut, hlinked⟩ := h.offered catchup (hoffers.of_same rfl rfl)
    exact ⟨hcut, fun socket => (hlinked socket).deliver count⟩

theorem HeardBy.reads (h : HeardBy cipher start s writer log heard) (hlawful : cipher.Lawful)
    (hshort : Short log) {results : List IoResult} {out : ReadOutput}
    (hread : s.server.Reads s.incoming results out) :
    HeardBy cipher start { s with server := out.reader, incoming := out.incoming } writer log
        (heard ++ HeardSession.heard (heardEvents out.result))
      ∧ ∀ e, .failed e ∈ heardEvents out.result → e.OfSocket := by
  obtain ⟨hlinked, hfailed⟩ := h.linked.read hlawful hshort hread
  have hevents : HeardSession.heard (heardEvents out.result) =
      linkDelivered (linkReadEvents out.result) := by
    rcases out.result with _ | _ | _ <;> rfl
  rw [hevents]
  refine ⟨⟨h.writer_eq, hlinked, h.plugged, fun position htold => ?_, fun catchup hoffers => ?_,
    fun i pc hpc => (h.touch i pc hpc).mono rfl rfl hread.sequenceNumber_le⟩, fun e hmem => ?_⟩
  · obtain ⟨hsocket, hunplugged, hinFlight, hincoming, hposition⟩ := h.told position htold
    obtain ⟨hstill, hsame, hsequence⟩ := hread.of_cut hsocket
    exact ⟨hstill, hunplugged, hinFlight, hsame.trans hincoming, hposition.trans hsequence.symm⟩
  · obtain ⟨hsocket, hoffered⟩ := h.offered catchup (hoffers.of_same rfl rfl)
    obtain ⟨hstill, hsame, -⟩ := hread.of_cut hsocket
    refine ⟨hstill, fun socket => ?_⟩
    have hafter := Linked.read_revived (s.link writer s.server) hlawful hsocket hread (hoffered socket)
    simp only [link] at hafter ⊢
    rw [hsame]
    exact hafter
  · apply hfailed e
    rcases hresult : out.result with e' | _ | _ <;> rw [hresult] at hmem
    · simpa [heardEvents, linkReadEvents] using hmem
    · simp [heardEvents] at hmem
    · simp [heardEvents] at hmem

theorem HeardBy.drops (h : HeardBy cipher start s writer log heard) :
    HeardBy cipher start { s with server := s.server.invalidateSocket } writer log heard := by
  refine ⟨h.writer_eq, h.linked.dropReader, h.plugged, fun position htold => ?_,
    fun catchup hoffers => ?_, fun i pc hpc => (h.touch i pc hpc).mono rfl rfl le_rfl⟩
  · obtain ⟨-, hrest⟩ := h.told position htold
    exact ⟨rfl, hrest⟩
  · exact ⟨rfl, (h.offered catchup (hoffers.of_same rfl rfl)).2⟩

/-! ### The session thread -/

end HeardSession

theorem BackedWriter.Writes.sent_of_unplugged {writer : BackedWriter} {packet : Packet}
    {results : List IoResult} {out : WriteOutput} (h : writer.Writes packet results out)
    (hunplugged : writer.socket = none) : out.sent = [] := by
  cases h with
  | sent hencrypt hsocket hall => cases hunplugged.symm.trans hsocket
  | broken hencrypt hsocket hfail => cases hunplugged.symm.trans hsocket
  | _ => rfl

theorem Client.SessionSteps.writer_isSome {client next : Client} {session : SessionPc}
    {move : SessionMove} {events : List ClientEvent}
    (h : Client.SessionSteps client session move next events)
    (hopen : ∀ stage, session ≠ .shutdown stage) (hsome : client.shared.writer.isSome) :
    next.shared.writer.isSome := by
  cases h with
  | writes hwriter hwrites => rfl
  | shutdown hshutdown => exact absurd rfl (hopen _)
  | @closing stage caller next hclose =>
      cases stage with
      | takeHandle =>
          simp only [Client.closeStep] at hclose
          split at hclose <;> obtain rfl := Option.some.inj hclose <;> exact hsome
      | joining thread =>
          simp only [Client.closeStep] at hclose
          split_ifs at hclose
          obtain rfl := Option.some.inj hclose
          exact hsome
      | invalidateWriter =>
          obtain rfl := Option.some.inj hclose
          simpa using hsome
      | maybeSpawn =>
          simp only [Client.closeStep] at hclose
          split_ifs at hclose <;> obtain rfl := Option.some.inj hclose <;> exact hsome
      | _ =>
          obtain rfl := Option.some.inj hclose
          exact hsome
  | _ => exact hsome

namespace HeardSession

variable {cipher : Cipher} {start : Nonce} {s : HeardSession} {writer : BackedWriter}
  {log : List Accepted} {heard : List Packet}

theorem HeardBy.of_link {session : LiveSession} {inFlight : Bytes} {after : BackedWriter}
    {later : List Accepted} (h : HeardBy cipher start s writer log heard)
    (hwriter : session.client.shared.writer = some after)
    (hconnections : session.client.shared.connections = s.session.client.shared.connections)
    (hthreads : ∀ (i : Nat) (pc : ReconnectPc) (socket : TcpStream),
      session.client.threads[i]? = some pc → pc.socket? = some socket →
      s.session.client.threads[i]? = some pc)
    (hplugged : ∀ socket, after.socket = some socket → writer.socket = some socket)
    (hinFlight : writer.socket = none → inFlight = s.inFlight)
    (hlink : ∀ reader, Linked cipher start (s.link writer reader) log heard →
      Linked cipher start ⟨after, reader, inFlight, s.incoming⟩ later heard) :
    HeardBy cipher start { s with session, inFlight } after later heard := by
  refine ⟨hwriter, hlink _ h.linked, fun socket hsocket => ?_, fun position htold => ?_, ?_,
    fun i pc hpc => ?_⟩
  · rw [hconnections]
    exact h.plugged socket (hplugged socket hsocket)
  · obtain ⟨hcut, hunplugged, hnothing, hincoming, hposition⟩ := h.told position htold
    refine ⟨hcut, ?_, (hinFlight hunplugged).trans hnothing, hincoming, hposition⟩
    by_contra hsome
    obtain ⟨socket, hsocket⟩ := Option.ne_none_iff_exists'.mp hsome
    cases hunplugged.symm.trans (hplugged socket hsocket)
  · rintro catchup hoffers
    have hbefore : s.Offers catchup := by
      obtain hoffered | ⟨i, pc, position, hpc, hheld⟩ := hoffers
      · exact .inl hoffered
      · have htold : pc.told? ≠ none := by simp [ReconnectPc.told_of_held hheld]
        obtain ⟨socket, hsocket⟩ := ReconnectPc.socket_of_touch (.inl htold)
        exact .inr ⟨i, pc, position, hthreads i pc socket hpc hsocket, hheld⟩
    obtain ⟨hcut, hlinked⟩ := h.offered catchup hbefore
    exact ⟨hcut, fun socket => hlink _ (hlinked socket)⟩
  · by_cases hsome : pc.told? ≠ none ∨ pc.sentCatchup? ≠ none
    · obtain ⟨socket, hsocket⟩ := ReconnectPc.socket_of_touch hsome
      exact (h.touch i pc (hthreads i pc socket hpc hsocket)).mono rfl rfl le_rfl
    · rw [not_or, not_not, not_not] at hsome
      exact .of_none hsome.1 hsome.2

theorem HeardBy.session {move : SessionMove} {inner : List ClientEvent}
    (h : HeardBy cipher start s writer log heard) (session : LiveSession) (hlawful : cipher.Lawful)
    (hopen : ∀ stage, s.session.client.session ≠ .shutdown stage)
    (hstep : clientMachine s.session.client (.session move) = some (session.client, inner)) :
    ∃ after, HeardBy cipher start
      { s with session, inFlight := s.inFlight ++ sentOn s.connection inner } after
      (log ++ clientAccepted inner) heard := by
  have hsteps := Client.sessionStep_spec hstep
  have hsome := hsteps.writer_isSome hopen (by rw [h.writer_eq]; rfl)
  have hthreads (i : Nat) (pc : ReconnectPc) (socket : TcpStream)
      (hpc : session.client.threads[i]? = some pc) (hsocket : pc.socket? = some socket) :=
    hsteps.effect.getElem?_threads hpc hsocket
  have hconnections := hsteps.effect.connections
  obtain ⟨client, run, calling⟩ := session
  cases hsteps.effect with
  | quiet hquiet hcalls =>
      obtain ⟨after, hafter⟩ := Option.isSome_iff_exists.mp hsome
      obtain ⟨before, hbefore, hcases⟩ := hquiet.writer_cases hafter
      obtain rfl := Option.some.inj (h.writer_eq.symm.trans hbefore)
      rw [hcalls.sentOn_eq, hcalls.clientAccepted_eq, List.append_nil, List.append_nil]
      refine ⟨after, h.of_link hafter hconnections hthreads (fun socket hsocket => ?_) (fun _ => rfl)
        fun reader hlinked => ?_⟩
      · obtain rfl | rfl := hcases
        · exact hsocket
        · cases hsocket
      · obtain rfl | rfl := hcases
        · exact hlinked
        · exact hlinked.dropWriter
  | @writes before packet results out session calls hbefore hwrites hcalls =>
      obtain rfl := Option.some.inj (h.writer_eq.symm.trans hbefore)
      have hsent : sentOn s.connection (Client.writeEvents writer packet out ++ calls) = out.sent := by
        rw [sentOn_append, sentOn_writeEvents hwrites, hcalls.sentOn_eq, List.append_nil]
        cases hsocket : writer.socket with
        | none => simp [hwrites.sent_of_unplugged hsocket]
        | some socket => rw [(h.plugged socket hsocket).1, if_pos rfl]
      rw [hsent, clientAccepted_append, clientAccepted_writeEvents, hcalls.clientAccepted_eq,
        List.append_nil]
      refine ⟨out.writer, h.of_link rfl hconnections hthreads (fun socket => hwrites.socket_of_some)
        (fun hunplugged => ?_) fun reader hlinked => ?_⟩
      · rw [hwrites.sent_of_unplugged hunplugged, List.append_nil]
      · exact hlinked.write hlawful.encrypt_isSome hwrites

/-! ### The reconnect threads -/

/-- Reviving the writer is good for a reader that has what was accepted before `recover` and the
catch-up, as long as nothing was accepted since. -/
theorem join_in_step {reader : BackedReader} {position : Int} {entries : List Bytes}
    (h : Linked cipher start (s.link writer reader) log heard)
    (hinStep : writer.sequenceNumber = position + entries.length)
    (hall : reader.socket ≠ none → position + entries.length ≤ reader.sequenceNumber)
    (socket : TcpStream) :
    Linked cipher start (s.link (writer.revive socket) reader) log heard := by
  refine h.join (fun hlive => ?_) socket
  have hsequence : writer.sequenceNumber = log.length := h.logs.sequence_eq
  have hle : writer.sequenceNumber ≤ reader.sequenceNumber := hinStep ▸ hall hlive
  exact hsequence ▸ hle

theorem HeardBy.thread (h : HeardBy cipher start s writer log heard)
    (hconsistent : s.session.client.Consistent) (hunplugged : s.session.client.Unplugged)
    (hnewest : s.session.client.Newest) (hcount : log.length < 2 ^ 31) {index : Nat}
    {pc : ReconnectPc} {out : ReconnectOutput} {handover : Handover}
    (hpc : s.session.client.threads[index]? = some pc) (hrunning : pc ≠ .finished)
    (hinStep : ∀ socket position entries, pc = .revivingWriter socket position entries →
      writer.sequenceNumber = position + entries.length)
    (houtbound : Outbound s s.session.client.shared pc out handover) :
    ∃ after, HeardBy cipher start
      { s with
        session := { s.session with client := s.session.client.stepped index out }
        handover } after log heard := by
  have honly {i : Nat} {pc' : ReconnectPc}
      (hpc' : (s.session.client.stepped index out).threads[i]? = some pc')
      (hrunning' : pc' ≠ .finished) : pc' = out.pc :=
    Client.eq_of_stepped hconsistent hpc hrunning hpc' hrunning'
  have hfree (htrying : pc.Trying ∨ pc.ReaderRevived) : writer.socket = none := by
    have hsocket := hunplugged.writer index pc hpc htrying
    simpa [Shared.writerSocket, h.writer_eq] using hsocket
  -- What is under way and who is in touch afterwards is a matter of the thread that stepped.
  have htouch {next : HeardSession} (hnext : next.InTouch out.pc) (i : Nat) (pc' : ReconnectPc)
      (hpc' : (s.session.client.stepped index out).threads[i]? = some pc') : next.InTouch pc' := by
    by_cases hended : pc' = .finished
    · subst hended
      exact .of_none rfl rfl
    · exact honly hpc' hended ▸ hnext
  have hheldBy {i : Nat} {pc' : ReconnectPc} {position : Int} {catchup : List Bytes}
      (hpc' : (s.session.client.stepped index out).threads[i]? = some pc')
      (hheld : pc'.heldCatchup? = some (position, catchup)) :
      out.pc.heldCatchup? = some (position, catchup) := by
    have hrunning' : pc' ≠ .finished := by
      rintro rfl
      cases hheld
    exact honly hpc' hrunning' ▸ hheld
  have hplugged (hsame : out.shared.connections ≠ s.session.client.shared.connections → pc.Trying)
      (socket : TcpStream) (hsocket : writer.socket = some socket) : socket = s.connection
        ∧ socket.connection + 1 = out.shared.connections := by
    obtain ⟨hconnection, hlast⟩ := h.plugged socket hsocket
    by_cases hconnections : out.shared.connections = s.session.client.shared.connections
    · exact ⟨hconnection, hlast.trans hconnections.symm⟩
    · cases (hfree (.inl (hsame hconnections))).symm.trans hsocket
  have hbefore := h.touch index pc hpc
  cases houtbound with
  | keeps hwriter htold hsent hconnections =>
      refine ⟨writer, hwriter.trans h.writer_eq, h.linked, hplugged hconnections, h.told, ?_,
        htouch (.of_none htold hsent)⟩
      rintro catchup (hoffered | ⟨i, pc', position, hpc', hheld⟩)
      · exact h.offered catchup (.inl hoffered)
      · cases htold.symm.trans (ReconnectPc.told_of_held (hheldBy hpc' hheld))
  | @hears position htold htrying =>
      obtain ⟨hcut, hnone, hinFlight, hincoming, rfl⟩ := h.told position htold
      have hposition : remoteSequence (sequenceHeader s.server.sequenceNumber) =
          s.server.sequenceNumber := by
        have heq : s.server.sequenceNumber = (heard.length + s.server.localBuffer.length : Nat) :=
          h.linked.sequence_eq
        have hle : heard.length + s.server.localBuffer.length ≤ log.length := h.linked.sequence_le
        exact (remoteSequence_sequenceHeader (by omega)).mpr (by omega)
      refine ⟨writer, h.writer_eq, h.linked, hplugged (fun hnot => absurd rfl hnot), ?_, ?_,
        htouch ⟨?_, ?_, ?_⟩⟩
      · exact fun position htold' => h.told position (htold.trans htold')
      · rintro catchup (hnot | ⟨i, pc', position, hpc', hheld⟩)
        · cases hnot
        · cases hheldBy hpc' hheld
      · exact fun socket hsocket _ => (Option.some.inj hsocket).symm
      · intro position hgiven
        rw [← Option.some.inj hgiven, hposition]
      · exact fun position entries hsent => (by cases hsent)
  | @recovers socket position entries hrecovering hentries =>
      subst hrecovering
      have htold := hbefore.told position rfl
      obtain ⟨hcut, hnone, hinFlight, hincoming, rfl⟩ := h.told position htold
      rw [h.writer_eq] at hentries
      refine ⟨writer, h.writer_eq, h.linked, hplugged (fun hnot => absurd rfl hnot), h.told, ?_,
        htouch ⟨?_, ?_, ?_⟩⟩
      · rintro catchup (hoffered | ⟨i, pc', position, hpc', hheld⟩)
        · cases htold.symm.trans hoffered
        · obtain ⟨-, rfl⟩ := Prod.mk.inj (Option.some.inj (hheldBy hpc' hheld))
          refine ⟨hcut, fun other => ?_⟩
          have hrecovered := h.linked.recovered hentries hnone other
          rw [link, hinFlight, hincoming]
          exact hrecovered
      · exact fun other hother _ => hbefore.connection other hother (.inl (by simp [ReconnectPc.told?]))
      · exact fun position hgiven => hbefore.told position hgiven
      · exact fun position entries hsent => (by cases hsent)
  | @offers socket position entries hsending =>
      subst hsending
      have htold := hbefore.told position rfl
      obtain ⟨hcut, hnone, hinFlight, hincoming, rfl⟩ := h.told position htold
      have hconnection := hbefore.connection socket rfl (.inl (by simp [ReconnectPc.told?]))
      rw [if_pos hconnection]
      refine ⟨writer, h.writer_eq, h.linked, hplugged (fun hnot => absurd rfl hnot),
        fun position hnot => ?_, ?_, htouch ⟨?_, ?_, ?_⟩⟩
      · cases hnot
      · rintro catchup (hoffered | ⟨i, pc', position, hpc', hheld⟩)
        · obtain rfl := Handover.offered.inj hoffered
          exact h.offered _ (.inr ⟨index, _, _, hpc, rfl⟩)
        · cases hheldBy hpc' hheld
      · exact fun other hother _ => (Option.some.inj hother).symm.trans hconnection
      · exact fun position hgiven => (by cases hgiven)
      · intro position' entries' hsent
        obtain ⟨rfl, rfl⟩ := Prod.mk.inj (Option.some.inj hsent)
        exact .inl ⟨rfl, le_rfl⟩
  | @holds out sent hsent hsent' hsocket htold hwriter hconnections =>
      refine ⟨writer, hwriter.trans h.writer_eq, h.linked,
        hplugged (fun hnot => absurd hconnections hnot), h.told, ?_, htouch ⟨?_, ?_, ?_⟩⟩
      · rintro catchup (hoffered | ⟨i, pc', position, hpc', hheld⟩)
        · exact h.offered catchup (.inl hoffered)
        · cases htold.symm.trans (ReconnectPc.told_of_held (hheldBy hpc' hheld))
      · exact fun other hother _ =>
          hbefore.connection other (hsocket ▸ hother) (.inr (by simp [hsent]))
      · exact fun position hgiven => (by cases htold.symm.trans hgiven)
      · exact fun position entries hgiven =>
          hbefore.sent position entries (hsent.trans (hsent'.symm.trans hgiven))
  | @revives socket position entries hreviving =>
      subst hreviving
      have hstep := hinStep socket position entries rfl
      have hconnection := hbefore.connection socket rfl (.inr (by simp [ReconnectPc.sentCatchup?]))
      have hsent := hbefore.sent position entries rfl
      refine ⟨writer.revive socket, by simp [Client.stepped, h.writer_eq], ?_, ?_, fun position htold => ?_,
        ?_, htouch (.of_none rfl rfl)⟩
      · refine join_in_step h.linked hstep (fun hlive => ?_) socket
        obtain ⟨hoffered, -⟩ | ⟨-, hall⟩ := hsent
        · exact absurd (h.offered entries (.inl hoffered)).1 hlive
        · exact hall
      · intro other hother
        obtain rfl := Option.some.inj hother
        exact ⟨hconnection, hnewest.thread index _ _ hpc rfl⟩
      · obtain ⟨hoffered, -⟩ | ⟨hsettled, -⟩ := hsent
        · cases hoffered.symm.trans htold
        · cases hsettled.symm.trans htold
      · rintro catchup (hoffered | ⟨i, pc', position, hpc', hheld⟩)
        · obtain ⟨hcut, hlinked⟩ := h.offered catchup (.inl hoffered)
          obtain ⟨hgiven, hle⟩ | ⟨hsettled, -⟩ := hsent
          · obtain rfl := Handover.offered.inj (hgiven.symm.trans hoffered)
            refine ⟨hcut, fun other => join_in_step (hlinked other) hstep (fun _ => ?_) socket⟩
            simpa [BackedReader.revive] using hle
          · cases hsettled.symm.trans hoffered
        · cases hheldBy hpc' hheld

/-! ### A step -/

/-- A thread that revives the writer finds it as `recover` left it. -/
def InStep (s : HeardSession) : HeardAction → Prop
  | .live (.thread index answer) => RevivesInStep s.session.client (.thread index answer)
  | _ => True

theorem revivesInStep_iff {client : Client} {index : Nat} (answer : Answer) :
    RevivesInStep client (.thread index answer) ↔
      ∀ pc ∈ client.threads[index]?, ∀ writer ∈ client.shared.writer, pc.findsInStep writer = true := by
  constructor
  · intro h pc hpc writer hwriter
    cases pc with
    | revivingWriter socket position entries => exact beq_of_eq (h socket position entries writer hpc hwriter)
    | _ => rfl
  · intro h socket position entries writer hpc hwriter
    exact eq_of_beq (h _ hpc writer hwriter)

instance decidableInStep (s : HeardSession) : ∀ action, Decidable (InStep s action)
  | .live (.thread _ answer) => decidable_of_iff _ (revivesInStep_iff answer).symm
  | .live .call => .isTrue trivial
  | .live (.inside _) => .isTrue trivial
  | .live (.own _) => .isTrue trivial
  | .accept => .isTrue trivial
  | .revive => .isTrue trivial
  | .deliver _ => .isTrue trivial
  | .read _ => .isTrue trivial
  | .drop => .isTrue trivial

theorem putOn_append (connection : TcpStream) (before after : List LiveEvent) :
    putOn connection (before ++ after) = putOn connection before ++ putOn connection after := by
  rw [putOn, List.filterMap_append, sentOn_append]
  rfl

@[simp] theorem putOn_client (connection : TcpStream) (events : List ClientEvent) :
    putOn connection (events.map .client) = sentOn connection events := by
  rw [putOn, LiveSession.client?_clients]

@[simp] theorem putOn_run (connection : TcpStream) (events : List RunEvent) :
    putOn connection (events.map .run) = [] := by
  rw [putOn, LiveSession.client?_runs]
  rfl

@[simp] theorem putOn_queueEvents (connection : TcpStream) (client : Client) (move : SessionMove) :
    putOn connection (client.queueEvents move) = [] := by
  rw [putOn, LiveEvent.client_queueEvents]
  rfl

theorem HeardBy.live {memory : Memory} {before events : List LiveEvent} {action : LiveAction}
    {handover : Handover} {session : LiveSession} (h : HeardBy cipher start s writer log heard)
    (hlawful : cipher.Lawful) (hattended : s.session.Attended before)
    (hunplugged : s.session.client.Unplugged) (hnewest : s.session.client.Newest)
    (hcount : log.length < 2 ^ 31) (hinStep : InStep s (.live action))
    (hhandover : s.handsOver action = some handover)
    (hlive : liveMachine memory s.session action = some (session, events)) :
    ∃ after, HeardBy cipher start
      { s with session, handover, inFlight := s.inFlight ++ putOn s.connection events } after
      (log ++ clientAccepted (events.filterMap LiveEvent.client?)) heard := by
  cases LiveSession.liveStep_spec hlive with
  | @thread index answer client inner hclient =>
      simp only [handsOver] at hhandover
      split at hhandover
      · next pc hpc =>
          simp only [clientMachine, Client.threadStep, hpc, Option.map_eq_some_iff,
            Prod.mk.injEq] at hclient
          obtain ⟨out, hout, rfl, rfl⟩ := hclient
          obtain ⟨after, hafter⟩ := h.thread hattended.consistent hunplugged hnewest hcount hpc
            (reconnectStep_spec hout).ne_finished (fun socket position entries hreviving =>
              hinStep socket position entries writer (hreviving ▸ hpc) h.writer_eq)
            (outbound_spec hout hhandover)
          rw [putOn_client, sentOn_reconnect, LiveSession.client?_clients, clientAccepted_reconnect,
            List.append_nil, List.append_nil]
          exact ⟨after, hafter⟩
      · cases hhandover
  | @calls call client inner hcalling hcall hclient =>
      obtain rfl := Option.some.inj hhandover
      rw [putOn_client, LiveSession.client?_clients]
      exact h.session { s.session with client, calling := true } hlawful hattended.severed.noShutdown hclient
  | @continues call move client inner hcalling hcall hclient hbusy =>
      obtain rfl := Option.some.inj hhandover
      rw [putOn_append, putOn_client, putOn_queueEvents, List.append_nil, List.filterMap_append,
        LiveSession.client?_clients, LiveEvent.client_queueEvents, List.append_nil]
      exact h.session { s.session with client } hlawful hattended.severed.noShutdown hclient
  | @returns call move client inner run out hcalling hcall hclient hidle hrun =>
      obtain rfl := Option.some.inj hhandover
      rw [putOn_append, putOn_append, putOn_client, putOn_queueEvents, putOn_run, List.append_nil,
        List.append_nil, List.filterMap_append, List.filterMap_append, LiveSession.client?_clients,
        LiveEvent.client_queueEvents, LiveSession.client?_runs, List.append_nil, List.append_nil]
      exact h.session ⟨client, run, false⟩ hlawful hattended.severed.noShutdown hclient
  | @own answer run out hcalling hshows hrun =>
      obtain rfl := Option.some.inj hhandover
      rw [putOn_run, LiveSession.client?_runs]
      have hnone : clientAccepted [] = [] := rfl
      rw [hnone, List.append_nil, List.append_nil]
      exact ⟨writer, h.of_link h.writer_eq rfl (fun _ _ _ hpc _ => hpc) (fun _ => id) (fun _ => rfl)
        fun _ => id⟩

/-- One step keeps the server linked, if a writer that it revives is in step and the packets accepted
are short and few enough to be counted. -/
theorem heard_step {memory : Memory} {action : HeardAction} {before events : List HeardEvent}
    (hlawful : cipher.Lawful)
    (h : HeardBy cipher start s writer (HeardSession.log before) (HeardSession.heard before))
    (hattended : s.session.Attended (shown before)) (hunplugged : s.session.client.Unplugged)
    (hnewest : s.session.client.Newest)
    (hshort : Short (HeardSession.log (before ++ events)))
    (hcount : (HeardSession.log (before ++ events)).length < 2 ^ 31) (hinStep : InStep s action)
    (hstep : heardMachine memory s action = some (next, events)) :
    (∃ after, HeardBy cipher start next after (HeardSession.log (before ++ events))
        (HeardSession.heard (before ++ events)))
      ∧ ∀ e, .failed e ∈ events → e.OfSocket := by
  rw [log_append] at hshort hcount ⊢
  rw [heard_append]
  have hlog : HeardSession.log [] = [] := rfl
  have hheard : HeardSession.heard [] = [] := rfl
  cases heardStep_spec hstep with
  | accepts hnewer =>
      rw [hlog, hheard, List.append_nil, List.append_nil]
      exact ⟨⟨writer, h.accepts hnewest hnewer⟩, by simp⟩
  | revives hoffered =>
      rw [hlog, hheard, List.append_nil, List.append_nil]
      exact ⟨⟨writer, h.revives hoffered⟩, by simp⟩
  | delivers count =>
      rw [hlog, hheard, List.append_nil, List.append_nil]
      exact ⟨⟨writer, h.delivers count⟩, by simp⟩
  | drops =>
      rw [hlog, hheard, List.append_nil, List.append_nil]
      exact ⟨⟨writer, h.drops⟩, by simp⟩
  | @reads results out hread =>
      have hnothing : HeardSession.log (heardEvents out.result) = [] := by
        rw [HeardSession.log, shown_heardEvents]
        rfl
      rw [hnothing, List.append_nil] at hshort ⊢
      obtain ⟨hafter, hfailed⟩ := h.reads hlawful hshort hread
      exact ⟨⟨writer, hafter⟩, hfailed⟩
  | @lives action handover session inner hhandover hlive =>
      have hfew : (HeardSession.log before).length < 2 ^ 31 := by
        rw [List.length_append] at hcount
        omega
      rw [heard_live, List.append_nil, HeardSession.log, HeardSession.log, shown_live]
      exact ⟨h.live hlawful hattended hunplugged hnewest hfew hinStep hhandover hlive, by simp⟩

/-! ### A run -/

theorem live_run {memory : Memory} {actions : List HeardAction} {events : List HeardEvent}
    (h : (heardMachine memory).run s actions = some (next, events)) :
    ∃ moves, (liveMachine memory).run s.session moves = some (next.session, shown events) := by
  refine (heardMachine memory).run_simulates (f := HeardSession.session) (fun hstep => ?_) h
  cases heardStep_spec hstep with
  | @lives action handover session events hhandover hlive =>
      refine ⟨[action], (Transducer.run_singleton _).mpr ?_⟩
      rw [show (events.map HeardEvent.live).filterMap HeardEvent.live? = events from shown_live events]
      exact hlive
  | @reads results out hread =>
      refine ⟨[], ?_⟩
      rw [show (heardEvents out.result).filterMap HeardEvent.live? = [] from shown_heardEvents _]
      rfl
  | _ => exact ⟨[], rfl⟩

/-- What holds of the session, whatever the server hears. -/
structure Sound (s : HeardSession) (events : List HeardEvent) : Prop where
  attended : s.session.Attended (shown events)
  unplugged : s.session.client.Unplugged
  newest : s.session.client.Newest

theorem start_sound (opts : ClientOptions) (readerCrypto writerCrypto : CryptoHandler) :
    Sound (HeardSession.start opts readerCrypto writerCrypto) [] :=
  ⟨LiveSession.start_attended opts readerCrypto writerCrypto, Client.connected_unplugged _ _,
    Client.connected_newest _ _⟩

theorem Sound.step {memory : Memory} {action : HeardAction} {before events : List HeardEvent}
    (h : s.Sound before) (hstep : heardMachine memory s action = some (next, events)) :
    next.Sound (before ++ events) := by
  obtain ⟨moves, hlive⟩ := live_run ((Transducer.run_singleton _).mpr hstep)
  obtain ⟨actions, hclient⟩ := LiveSession.client_run hlive
  have hafter : next.session.client.Consistent ∧ next.session.client.Unplugged
      ∧ next.session.client.Newest :=
    clientMachine.run_invariant_state
      (I := fun during => during.Consistent ∧ during.Unplugged ∧ during.Newest)
      (fun hduring hmove => ⟨clientMachine_consistent hduring.1 hmove,
        Client.clientMachine_unplugged hduring.2.1 hduring.1 hmove,
        Client.clientMachine_newest hduring.2.2 hduring.1 hduring.2.1 hmove⟩)
      ⟨h.attended.consistent, h.unplugged, h.newest⟩ hclient
  refine ⟨?_, hafter.2.1, hafter.2.2⟩
  rw [shown_append]
  exact (liveMachine memory).run_invariant (fun hduring hmove => hduring.step hmove) _ h.attended hlive

theorem log_of_writes {memory : Memory} {opts : ClientOptions}
    {readerCrypto writerCrypto : CryptoHandler} {actions : List HeardAction} {s : HeardSession}
    {events : List HeardEvent}
    (hrun : (heardMachine memory).run (HeardSession.start opts readerCrypto writerCrypto) actions =
      some (s, events)) :
    ∃ copies : List (List Packet), (HeardSession.log events).map Accepted.plain = copies.flatten
      ∧ List.Forall₂ (fun packet block => ∀ copy ∈ block, copy = packet)
        ((loopWrites ((shown events).filterMap LiveEvent.run?)).map Prod.fst ++ s.session.pending)
        copies
      ∧ ∀ (i : Nat) (packet : Packet),
        (loopWrites ((shown events).filterMap LiveEvent.run?))[i]? = some (packet, true) →
        copies[i]? ≠ some [] := by
  obtain ⟨moves, hlive⟩ := live_run hrun
  have hcalls := (liveMachine memory).run_invariant (I := LiveSession.InCalls)
    LiveSession.InCalls.step [] (LiveSession.start_inCalls opts readerCrypto writerCrypto) hlive
  obtain ⟨inner, hclient⟩ := LiveSession.client_run hlive
  obtain ⟨blocks, hlog, hown, hkept⟩ := (journaled_run hclient).journal
  have hcalled := hcalls.called
  have hresults := hcalls.results
  rw [List.nil_append] at hcalled hresults
  refine ⟨blocks.map fun block => block.map Accepted.plain, ?_, ?_, fun i packet hwrite hempty => ?_⟩
  · rw [HeardSession.log, hlog, List.map_flatten]
  · rw [← hcalled, List.forall₂_map_right_iff]
    refine hown.imp fun packet block hblock copy hmem => ?_
    obtain ⟨entry, hentry, rfl⟩ := List.mem_map.mp hmem
    exact hblock entry hentry
  · rw [List.getElem?_map, Option.map_eq_some_iff] at hempty
    obtain ⟨block, hblock, hnone⟩ := hempty
    refine hkept i block hblock ?_ (List.map_eq_nil_iff.mp hnone)
    rw [hresults, List.getElem?_map, hwrite]
    rfl

end HeardSession

open HeardSession in
/-- **The server hears its session.** In every run of a session and its server in which no packet is
accepted between the `recover` and the `revive` of a reconnect, however often the connection breaks,
wherever the bytes are cut and whatever else the threads do in between: the packets that the server reads
are the first ones of the client's log, in order and unaltered, as many as its reader counts beyond its
queue; no read of the server fails for what it has read; the log is made of the packets that
`run_session` wrote, in that order, with every packet that `write_packet` returned `true` for; and
nothing is missing when nothing is on its way. -/
theorem server_hears_session {memory : Memory} {opts : ClientOptions}
    {readerCrypto writerCrypto : CryptoHandler} (hlawful : writerCrypto.cipher.Lawful)
    {actions : List HeardAction} {s : HeardSession} {events : List HeardEvent}
    (hrun : (heardMachine memory).run (HeardSession.start opts readerCrypto writerCrypto) actions =
      some (s, events))
    (hinStep : (heardMachine memory).Along InStep (HeardSession.start opts readerCrypto writerCrypto)
      actions)
    (hshort : ∀ entry ∈ log events, entry.stored.serialize.length < 2 ^ 32)
    (hcount : (log events).length < 2 ^ 31) :
    (∀ e, .failed e ∈ events → e.OfSocket)
      ∧ ∃ k : Nat, k ≤ (log events).length
        ∧ heard events = ((log events).take k).map Accepted.plain
        ∧ (k : Int) = s.server.sequenceNumber - s.server.localBuffer.length
        ∧ (∃ copies : List (List Packet), (log events).map Accepted.plain = copies.flatten
          ∧ List.Forall₂ (fun packet block => ∀ copy ∈ block, copy = packet)
            ((loopWrites ((shown events).filterMap LiveEvent.run?)).map Prod.fst
              ++ s.session.pending) copies
          ∧ ∀ (i : Nat) (packet : Packet),
            (loopWrites ((shown events).filterMap LiveEvent.run?))[i]? = some (packet, true) →
            copies[i]? ≠ some [])
        ∧ ∃ writer, s.session.client.shared.writer = some writer
          ∧ (writer.socket ≠ none → s.server.socket ≠ none → s.inFlight = [] → s.incoming = [] →
            s.server.localBuffer = [] → k = (log events).length) := by
  have hheard := (heardMachine memory).run_invariant_along (I := fun s events =>
    s.Sound events ∧ (Short (log events) → (log events).length < 2 ^ 31 →
      (∀ e, .failed e ∈ events → e.OfSocket)
        ∧ ∃ writer, HeardBy writerCrypto.cipher writerCrypto.nonce s writer (log events)
          (heard events))) (C := InStep) ?_ []
    ⟨start_sound opts readerCrypto writerCrypto,
      fun _ _ => ⟨by simp, .new writerCrypto ⟨0⟩, start_heardBy opts readerCrypto writerCrypto⟩⟩ hinStep hrun
  · obtain ⟨hfailed, writer, hhears⟩ := hheard.2 hshort hcount
    rw [List.nil_append] at hfailed hhears
    have hsequence : s.server.sequenceNumber = _ := hhears.linked.sequence_eq
    have hle := hhears.linked.sequence_le
    refine ⟨hfailed, _, by omega, hhears.linked.delivered_eq, ?_, log_of_writes hrun, writer,
      hhears.writer_eq, hhears.linked.caught_up hshort⟩
    simp only [link] at hsequence ⊢
    omega
  · intro s before action next out hbefore hstepIn hstep
    obtain ⟨hsound, hhears⟩ := hbefore
    refine ⟨hsound.step hstep, fun hall hfew => ?_⟩
    have hpre : log before <+: log (before ++ out) := by
      rw [log_append]
      exact List.prefix_append _ _
    obtain ⟨hfailed, writer, hwriter⟩ :=
      hhears (fun entry hmem => hall entry (hpre.subset hmem)) (hpre.length_le.trans_lt hfew)
    obtain ⟨hafter, hout⟩ := heard_step hlawful hwriter hsound.attended hsound.unplugged hsound.newest
      hall hfew hstepIn hstep
    refine ⟨fun e hmem => ?_, hafter⟩
    exact (List.mem_append.mp hmem).elim (hfailed e) (hout e)

/-- The session loses its connection after the first packet, and the user types `hi` before a thread has
got to `recover`. The server takes it from the catch-up. -/
theorem server_hears_session_after_break :
    let memory : Memory := fun len => len ≤ maxProtoBytes
    let crypto : CryptoHandler := ⟨tagCipher, .start clientServerNonceMsb⟩
    let sealed : Bytes :=
      match (Packet.new EtPacket.initialResponse []).encrypt crypto with
      | (.ok stored, _) => stored.serialize
      | (.error _, _) => []
    let establish : List HeardAction :=
      [.live .call, .live (.inside .step), .live (.inside (.write [.ok 64])), .deliver 64,
        .read [.ok 4, .ok 64], .live (.own (.now 0)), .live (.own (.now 0)), .live .call,
        .live (.inside (.read (frame sealed) [.ok 4, .ok 64])), .live (.own (.opened (.ok ()))),
        .live (.own (.now 0))]
    let breakDown : List HeardAction :=
      [.live (.own (.shuttingDown false)), .live (.own (.shutdown false)),
        .live (.own (.hasSocket true)), .live .call, .live (.inside (.read [] [.ok 0]))]
          ++ List.replicate 6 (.live (.inside .step)) ++ [.live (.own (.now 0))]
    let typed : List HeardAction :=
      [.live (.own (.input (.ok (some [0x68, 0x69])))), .live .call, .live (.inside .step),
        .live (.inside (.write []))]
    let recover : List HeardAction :=
      List.replicate 4 (.live (.thread 0 .done))
        ++ [.accept, .live (.thread 0 (.response { status := some .returningClient, error := none })),
          .live (.thread 0 .done), .live (.thread 0 .done),
          .live (.thread 0 (.sequence { sequenceNumber := some 1 })), .live (.thread 0 .done),
          .live (.thread 0 .done), .revive, .live (.thread 0 (.catchup { buffer := [] }))]
        ++ List.replicate 4 (.live (.thread 0 .done)) ++ [.read []]
    ∃ s events,
      (heardMachine memory).run (HeardSession.start {} crypto crypto)
          (establish ++ breakDown ++ typed ++ recover) = some (s, events)
        ∧ HeardSession.heard events = [Packet.new EtPacket.initialPayload [], bufferPacket [0x68, 0x69]]
        ∧ (∀ e, .failed e ∈ events → e.OfSocket)
        ∧ ∃ k, k ≤ (HeardSession.log events).length
          ∧ HeardSession.heard events = ((HeardSession.log events).take k).map Accepted.plain := by
  intro memory crypto sealed establish breakDown typed recover
  have hinStep : (heardMachine memory).Along HeardSession.InStep (HeardSession.start {} crypto crypto)
      (establish ++ breakDown ++ typed ++ recover) := by
    decide +kernel
  have hran : ((heardMachine memory).run (HeardSession.start {} crypto crypto)
      (establish ++ breakDown ++ typed ++ recover)).map (fun out => (HeardSession.heard out.2,
        (HeardSession.log out.2).map fun entry => entry.stored.serialize.length)) =
      some ([Packet.new EtPacket.initialPayload [], bufferPacket [0x68, 0x69]], [18, 22]) := by
    decide +kernel
  obtain ⟨⟨s, events⟩, hrun, hout⟩ := Option.map_eq_some_iff.mp hran
  obtain ⟨hheard, hlengths⟩ := Prod.mk.inj hout
  have hcount : (HeardSession.log events).length = 2 := by
    simpa using congrArg List.length hlengths
  have hshort : ∀ entry ∈ HeardSession.log events, entry.stored.serialize.length < 2 ^ 32 := by
    intro entry hmem
    have hlength : entry.stored.serialize.length ∈ [18, 22] :=
      hlengths ▸ List.mem_map_of_mem hmem
    simp only [List.mem_cons, List.not_mem_nil, or_false] at hlength
    omega
  obtain ⟨hfailed, k, hk, htaken, -⟩ :=
    server_hears_session tagCipher_lawful hrun hinStep hshort (by omega)
  exact ⟨s, events, hrun, hheard, hfailed, k, hk, htaken⟩

end EternalTerminal
