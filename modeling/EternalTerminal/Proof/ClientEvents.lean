import EternalTerminal.Connection.Client
import EternalTerminal.Proof.WriterLog

/-!
# What the events of a client say

A run of the client is looked at through three projections of its events: the packets accepted, the
bytes put on a connection, and the catch-ups sent. The writer is at every moment what the accepted
packets make it.
-/

namespace EternalTerminal

/-- The packets accepted so far, in order. -/
def clientAccepted (events : List ClientEvent) : List Accepted :=
  events.filterMap fun
    | .accepted entry => some entry
    | _ => none

/-- What `write` has put on this connection. -/
def sentOn (socket : TcpStream) (events : List ClientEvent) : Bytes :=
  events.flatMap fun
    | .sent socket' bytes => if socket' = socket then bytes else []
    | _ => []

/-- This catch-up went out on this connection. -/
def CaughtUp (events : List ClientEvent) (socket : TcpStream) (remoteSeq : Int)
    (entries : List Bytes) : Prop :=
  ∃ i, .reconnect i (.catchup socket remoteSeq entries) ∈ events

/-! ### The projections, step by step -/

theorem clientAccepted_append (before after : List ClientEvent) :
    clientAccepted (before ++ after) = clientAccepted before ++ clientAccepted after :=
  List.filterMap_append

theorem sentOn_append (socket : TcpStream) (before after : List ClientEvent) :
    sentOn socket (before ++ after) = sentOn socket before ++ sentOn socket after :=
  List.flatMap_append

theorem caughtUp_append {before after : List ClientEvent} {socket : TcpStream} {remoteSeq : Int}
    {entries : List Bytes} :
    CaughtUp (before ++ after) socket remoteSeq entries ↔
      CaughtUp before socket remoteSeq entries ∨ CaughtUp after socket remoteSeq entries := by
  simp only [CaughtUp, List.mem_append, exists_or]

@[simp] theorem clientAccepted_reconnect (i : Nat) (events : List ReconnectEvent) :
    clientAccepted (events.map (.reconnect i)) = [] := by
  simp [clientAccepted]

@[simp] theorem sentOn_reconnect (socket : TcpStream) (i : Nat) (events : List ReconnectEvent) :
    sentOn socket (events.map (.reconnect i)) = [] := by
  simp [sentOn]

theorem caughtUp_reconnect {i : Nat} {events : List ReconnectEvent} {socket : TcpStream}
    {remoteSeq : Int} {entries : List Bytes} :
    CaughtUp (events.map (.reconnect i)) socket remoteSeq entries ↔
      .catchup socket remoteSeq entries ∈ events := by
  simp [CaughtUp]

namespace Calls

variable {events : List ClientEvent} (h : Calls events)
include h

theorem clientAccepted_eq : clientAccepted events = [] := by
  rw [clientAccepted, List.filterMap_eq_nil_iff]
  intro event hmem
  obtain ⟨packet, rfl⟩ | ⟨result, rfl⟩ := h event hmem <;> rfl

theorem sentOn_eq (socket : TcpStream) : sentOn socket events = [] := by
  rw [sentOn, List.flatMap_eq_nil_iff]
  intro event hmem
  obtain ⟨packet, rfl⟩ | ⟨result, rfl⟩ := h event hmem <;> rfl

end Calls

theorem clientAccepted_writeEvents (writer : BackedWriter) (packet : Packet) (out : WriteOutput) :
    clientAccepted (Client.writeEvents writer packet out) =
      out.pushed.toList.map fun stored => ⟨out.writer.crypto.nonce, packet, stored⟩ := by
  unfold Client.writeEvents
  cases out.pushed with
  | none => rfl
  | some stored => cases writer.socket <;> rfl

theorem sentOn_writeEvents {writer : BackedWriter} {packet : Packet} {results : List IoResult}
    {out : WriteOutput} (h : writer.Writes packet results out) (socket : TcpStream) :
    sentOn socket (Client.writeEvents writer packet out) =
      if writer.socket = some socket then out.sent else [] := by
  cases h with
  | refused hrefuses => simp [Client.writeEvents, sentOn]
  | notEncrypted hrefuses hencrypt => simp [Client.writeEvents, sentOn]
  | buffered hrefuses hencrypt hsocket => simp [Client.writeEvents, sentOn, hsocket]
  | sent hencrypt hsocket hall => simp [Client.writeEvents, sentOn, hsocket]
  | broken hencrypt hsocket hfail => simp [Client.writeEvents, sentOn, hsocket]

theorem Calls.not_caughtUp {events : List ClientEvent} (h : Calls events) {socket : TcpStream}
    {remoteSeq : Int} {entries : List Bytes} : ¬ CaughtUp events socket remoteSeq entries := by
  intro hgiven
  obtain ⟨i, hmem⟩ := hgiven
  obtain ⟨packet, hcalled⟩ | ⟨result, hreturned⟩ := h _ hmem
  · exact absurd hcalled nofun
  · exact absurd hreturned nofun

theorem not_caughtUp_writeEvents {writer : BackedWriter} {packet : Packet} {out : WriteOutput}
    {socket : TcpStream} {remoteSeq : Int} {entries : List Bytes} :
    ¬ CaughtUp (Client.writeEvents writer packet out) socket remoteSeq entries := by
  intro hgiven
  obtain ⟨i, hmem⟩ := hgiven
  simp only [Client.writeEvents] at hmem
  split at hmem
  · simp at hmem
  · split at hmem <;> simp at hmem

/-- Events without a packet, a frame or a catch-up. -/
structure Irrelevant (events : List ClientEvent) : Prop where
  accepted : clientAccepted events = []
  sent : ∀ socket, sentOn socket events = []
  caughtUp : ∀ socket remoteSeq entries, ¬ CaughtUp events socket remoteSeq entries

theorem Calls.irrelevant {events : List ClientEvent} (h : Calls events) : Irrelevant events :=
  ⟨h.clientAccepted_eq, h.sentOn_eq, fun _ _ _ => h.not_caughtUp⟩

theorem irrelevant_reconnect {i : Nat} {events : List ReconnectEvent}
    (h : ∀ socket remoteSeq entries, .catchup socket remoteSeq entries ∉ events) :
    Irrelevant (events.map (.reconnect i)) :=
  ⟨clientAccepted_reconnect i events, fun socket => sentOn_reconnect socket i events,
    fun socket remoteSeq entries hcaughtUp =>
      h socket remoteSeq entries (caughtUp_reconnect.mp hcaughtUp)⟩

namespace Client

variable {client next : Client}

theorem Quiet.writer_cases (h : Quiet client next) {writer : BackedWriter}
    (hwriter : next.shared.writer = some writer) :
    ∃ before, client.shared.writer = some before
      ∧ (writer = before ∨ writer = before.invalidateSocket) := by
  rcases h.writer with hsame | hinvalid | hnone
  · exact ⟨writer, hsame ▸ hwriter, .inl rfl⟩
  · rw [hinvalid, Option.map_eq_some_iff] at hwriter
    obtain ⟨before, hbefore, rfl⟩ := hwriter
    exact ⟨before, hbefore, .inr rfl⟩
  · rw [hnone] at hwriter
    exact absurd hwriter nofun

end Client

/-! ### The log of the writer -/

/-- The writer, if there is one, has accepted exactly what the events say. -/
def Logged (client : Client) (events : List ClientEvent) : Prop :=
  ∀ writer, client.shared.writer = some writer →
    Retains writer ((clientAccepted events).map Accepted.stored)

theorem Reconnects.writer_cases {shared : Shared} {pc : ReconnectPc} {out : ReconnectOutput}
    (h : Reconnects shared pc out) {writer : BackedWriter} (hwriter : out.shared.writer = some writer) :
    ∃ before, shared.writer = some before
      ∧ (writer = before ∨ ∃ socket, writer = before.revive socket) := by
  cases h with
  | revivesWriter =>
      obtain ⟨before, hbefore, rfl⟩ := Option.map_eq_some_iff.mp hwriter
      exact ⟨before, hbefore, .inr ⟨_, rfl⟩⟩
  | _ => exact ⟨writer, hwriter, .inl rfl⟩

theorem logged_step {client next : Client} {events out : List ClientEvent} {action : ClientAction}
    (h : Logged client events) (hstep : clientMachine client action = some (next, out)) :
    Logged next (events ++ out) := by
  intro writer hwriter
  rw [clientAccepted_append, List.map_append]
  cases action with
  | session move =>
      have heffect := (Client.sessionStep_spec hstep).effect
      cases heffect with
      | quiet hquiet hcalls =>
          rw [hcalls.clientAccepted_eq, List.map_nil, List.append_nil]
          obtain ⟨before, hbefore, rfl | rfl⟩ := hquiet.writer_cases hwriter
          · exact h _ hbefore
          · exact (h _ hbefore).invalidateSocket
      | @writes before packet results written session calls hbefore hwrites hcalls =>
          obtain rfl := Option.some.inj hwriter
          have hretains := (h before hbefore).write hwrites
          rw [clientAccepted_append, clientAccepted_writeEvents,
            hcalls.clientAccepted_eq, List.append_nil, List.map_map]
          simpa [Function.comp_def] using hretains
  | thread index answer =>
      obtain ⟨pc, out', hpc, hreconnects, rfl, rfl⟩ := Client.threadStep_eq_some hstep
      rw [clientAccepted_reconnect, List.map_nil, List.append_nil]
      obtain ⟨before, hbefore, rfl | ⟨socket, rfl⟩⟩ := hreconnects.writer_cases hwriter
      · exact h _ hbefore
      · exact (h _ hbefore).revive socket

theorem logged_run {client next : Client} {events out : List ClientEvent}
    {actions : List ClientAction} (h : Logged client events)
    (hrun : clientMachine.run client actions = some (next, out)) : Logged next (events ++ out) :=
  clientMachine.run_invariant (I := Logged) logged_step events h hrun

theorem connected_logged (readerCrypto writerCrypto : CryptoHandler) :
    Logged (Client.connected readerCrypto writerCrypto) [] := by
  intro writer hwriter
  obtain rfl := Option.some.inj hwriter
  exact .new writerCrypto ⟨0⟩

end EternalTerminal
