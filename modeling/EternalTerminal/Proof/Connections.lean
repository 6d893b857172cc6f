import EternalTerminal.Library.Succession
import EternalTerminal.Proof.Resumption
import EternalTerminal.Proof.Severed

/-!
# One connection after another

Seen from the server, the client is a party that uses one link after another: it opens a connection only
when neither its reader nor its writer has one, the catch-up greets the server on it, and only then the
writer uses it.
-/

namespace EternalTerminal

namespace CloseStage

/-- `close_and_maybe_reconnect` has taken both sockets and not yet spawned. -/
def Unplugged : CloseStage → Prop
  | .clearAlive => True
  | .maybeSpawn => True
  | _ => False

theorem Unplugged.severing {stage : CloseStage} (h : stage.Unplugged) : stage.Severing := by
  cases stage with
  | clearAlive => exact trivial
  | maybeSpawn => exact trivial
  | _ => exact absurd h id

end CloseStage

namespace Client

/-- While a thread looks for another connection there is none in use. -/
structure Unplugged (client : Client) : Prop where
  reader : ∀ (i : Nat) (pc : ReconnectPc), client.threads[i]? = some pc → pc.Trying →
    client.shared.readerSocket = none
  writer : ∀ (i : Nat) (pc : ReconnectPc), client.threads[i]? = some pc →
    pc.Trying ∨ pc.ReaderRevived → client.shared.writerSocket = none
  closingReader : ∀ stage caller, client.session = .closing stage caller → stage.Severing →
    client.shared.readerSocket = none
  closingWriter : ∀ stage caller, client.session = .closing stage caller → stage.Unplugged →
    client.shared.writerSocket = none

variable {client next : Client}

/-- Places of the session thread that promise nothing about the sockets. -/
def Plugged : SessionPc → Prop
  | .closing stage _ => ¬ stage.Severing
  | _ => True

theorem Unplugged.keep (h : client.Unplugged)
    (hreader : client.shared.readerSocket = none → next.shared.readerSocket = none)
    (hwriter : client.shared.writerSocket = none → next.shared.writerSocket = none)
    (hthreads : next.threads = client.threads) (hsession : Plugged next.session) :
    next.Unplugged := by
  refine ⟨fun i pc hpc htrying => ?_, fun i pc hpc htrying => ?_, fun stage caller hclosing hstage => ?_,
    fun stage caller hclosing hstage => ?_⟩
  · rw [hthreads] at hpc
    exact hreader (h.reader i pc hpc htrying)
  · rw [hthreads] at hpc
    exact hwriter (h.writer i pc hpc htrying)
  · rw [hclosing] at hsession
    exact absurd hstage hsession
  · rw [hclosing] at hsession
    exact absurd hstage.severing hsession

theorem plugged_returnTo (caller : Caller) : Plugged (returnTo caller) := by
  cases caller <;> exact trivial

theorem plugged_afterWrite (packet : Packet) (state : WriteState) :
    Plugged (afterWrite packet state).1 := by
  cases state with
  | wroteWithFailure => exact id
  | _ => exact trivial

theorem closeStep_unplugged {caller : Caller} {stage : CloseStage} (h : client.Unplugged)
    (hsession : client.session = .closing stage caller)
    (hstep : client.closeStep caller stage = some next) : next.Unplugged := by
  cases stage with
  | takeHandle =>
      simp only [closeStep] at hstep
      split at hstep <;> obtain rfl := Option.some.inj hstep <;> exact h.keep id id rfl id
  | joining thread =>
      simp only [closeStep] at hstep
      split_ifs at hstep
      obtain rfl := Option.some.inj hstep
      exact h.keep id id rfl id
  | invalidateReader =>
      obtain rfl := Option.some.inj hstep
      have hcut : (client.shared.reader.map BackedReader.invalidateSocket).bind
          BackedReader.socket = none := by
        cases client.shared.reader <;> rfl
      refine ⟨fun _ _ _ _ => hcut, h.writer, fun _ _ _ _ => hcut, fun stage _ hstage hout => ?_⟩
      obtain ⟨rfl, -⟩ := SessionPc.closing.inj hstage
      exact absurd hout id
  | invalidateWriter =>
      obtain rfl := Option.some.inj hstep
      have hcut : (client.shared.writer.map BackedWriter.invalidateSocket).bind
          BackedWriter.socket = none := by
        cases client.shared.writer <;> rfl
      have hreader := h.closingReader _ _ hsession trivial
      exact ⟨fun _ _ _ _ => hreader, fun _ _ _ _ => hcut, fun _ _ _ _ => hreader, fun _ _ _ _ => hcut⟩
  | clearAlive =>
      obtain rfl := Option.some.inj hstep
      have hreader := h.closingReader _ _ hsession trivial
      have hwriter := h.closingWriter _ _ hsession trivial
      exact ⟨fun _ _ _ _ => hreader, fun _ _ _ _ => hwriter, fun _ _ _ _ => hreader,
        fun _ _ _ _ => hwriter⟩
  | maybeSpawn =>
      have hreader := h.closingReader _ _ hsession trivial
      have hwriter := h.closingWriter _ _ hsession trivial
      simp only [closeStep] at hstep
      split_ifs at hstep <;> obtain rfl := Option.some.inj hstep
      · exact h.keep id id rfl (plugged_returnTo caller)
      · exact ⟨fun _ _ _ _ => hreader, fun _ _ _ _ => hwriter, fun _ _ _ _ => hreader,
          fun _ _ _ _ => hwriter⟩
  | storeHandle thread =>
      obtain rfl := Option.some.inj hstep
      exact h.keep id id rfl (plugged_returnTo caller)

theorem shutdownStep_unplugged {stage : ShutdownStage} (h : client.Unplugged)
    (hstep : client.shutdownStep stage = some next) : next.Unplugged := by
  cases stage with
  | takeHandle =>
      simp only [shutdownStep] at hstep
      split at hstep <;> obtain rfl := Option.some.inj hstep <;> exact h.keep id id rfl trivial
  | joining thread =>
      simp only [shutdownStep] at hstep
      split_ifs at hstep
      obtain rfl := Option.some.inj hstep
      exact h.keep id id rfl trivial
  | clearReader =>
      obtain rfl := Option.some.inj hstep
      exact h.keep (fun _ => rfl) id rfl trivial
  | clearWriter =>
      obtain rfl := Option.some.inj hstep
      exact h.keep id (fun _ => rfl) rfl trivial
  | _ =>
      obtain rfl := Option.some.inj hstep
      exact h.keep id id rfl trivial

theorem sessionSteps_unplugged {session : SessionPc} {move : SessionMove}
    {events : List ClientEvent} (h : client.Unplugged) (hsession : client.session = session)
    (hstep : SessionSteps client session move next events) : next.Unplugged := by
  cases hstep with
  | writes hwriter hwrites =>
      refine h.keep id (fun hnone => ?_) rfl (plugged_afterWrite _ _)
      simp only [Shared.writerSocket, hwriter, Option.bind_some] at hnone ⊢
      by_contra hsome
      obtain ⟨socket, hsocket⟩ := Option.ne_none_iff_exists'.mp hsome
      cases hnone.symm.trans (hwrites.socket_of_some hsocket)
  | read hreader hreads hnext =>
      refine h.keep (fun hnone => ?_) id rfl ?_
      · simp only [Shared.readerSocket, hreader, Option.bind_some] at hnone ⊢
        exact hreads.socket_eq.trans hnone
      · rcases hnext with rfl | rfl
        · exact trivial
        · exact id
  | closes => exact h.keep id id rfl id
  | closing hclose => exact closeStep_unplugged h hsession hclose
  | shutdown hshutdown => exact shutdownStep_unplugged h hshutdown
  | _ => exact h.keep id id rfl trivial

end Client

theorem Reconnects.unplugged {shared : Shared} {pc : ReconnectPc} {out : ReconnectOutput}
    (h : Reconnects shared pc out) (htrying : out.pc.Trying ∨ out.pc.ReaderRevived) :
    pc.Trying ∧ out.shared.writerSocket = shared.writerSocket
      ∧ (out.pc.Trying → out.shared.readerSocket = shared.readerSocket) := by
  cases h with
  | leaves hpc hflag => exact absurd htrying (by simp [ReconnectPc.Trying, ReconnectPc.ReaderRevived])
  | fails e hpc => exact ⟨hpc, rfl, fun _ => rfl⟩
  | moves hpc hpc' hsocket hsent hheld => exact ⟨hpc, rfl, fun _ => rfl⟩
  | rejects hpc => exact ⟨hpc, rfl, fun _ => rfl⟩
  | revivesReader =>
      exact ⟨⟨by simp, by simp, id⟩, rfl, fun hnext => absurd trivial hnext.2.2⟩
  | revivesWriter => exact absurd htrying (by simp [ReconnectPc.Trying, ReconnectPc.ReaderRevived])
  | succeeds => exact absurd htrying (by simp [ReconnectPc.Trying, ReconnectPc.ReaderRevived])
  | ends => exact absurd htrying (by simp [ReconnectPc.Trying, ReconnectPc.ReaderRevived])
  | _ => exact ⟨⟨by simp, by simp, id⟩, rfl, fun _ => rfl⟩

namespace Client

variable {client next : Client}

theorem stepped_unplugged {index : Nat} {pc : ReconnectPc} {out : ReconnectOutput}
    (h : client.Unplugged) (hconsistent : client.Consistent)
    (hpc : client.threads[index]? = some pc) (hstep : Reconnects client.shared pc out) :
    (client.stepped index out).Unplugged := by
  obtain ⟨handle, howned⟩ := hconsistent.owned
  have hrunning : Running client.threads index := ⟨pc, hpc, hstep.ne_finished⟩
  have hlt : index < client.threads.length := (List.getElem?_eq_some_iff.mp hpc).1
  have hself : ∀ (j : Nat) (pc' : ReconnectPc), (client.threads.set index out.pc)[j]? = some pc' →
      pc' ≠ .finished → pc' = out.pc := by
    intro j pc' hj hne
    obtain ⟨rfl, -⟩ := howned.running_step hpc hstep ⟨pc', hj, hne⟩
    rw [List.getElem?_set_self hlt] at hj
    exact (Option.some.inj hj).symm
  refine ⟨fun j pc' hj htrying => ?_, fun j pc' hj htrying => ?_, fun stage caller hsession hstage => ?_,
    fun stage caller hsession hstage => ?_⟩
  · obtain rfl := hself j pc' hj htrying.1
    obtain ⟨hbefore, -, hreader⟩ := hstep.unplugged (.inl htrying)
    exact (hreader htrying).trans (h.reader index pc hpc hbefore)
  · have hne : pc' ≠ .finished := by
      rintro rfl
      exact htrying.elim (fun hgiven => hgiven.1 rfl) id
    obtain rfl := hself j pc' hj hne
    obtain ⟨hbefore, hwriter, -⟩ := hstep.unplugged htrying
    exact hwriter.trans (h.writer index pc hpc (.inl hbefore))
  · exact absurd hrunning (hconsistent.not_running_severing hsession hstage index)
  · exact absurd hrunning (hconsistent.not_running_severing hsession hstage.severing index)

theorem clientMachine_unplugged {action : ClientAction} {events : List ClientEvent}
    (h : client.Unplugged) (hconsistent : client.Consistent)
    (hstep : clientMachine client action = some (next, events)) : next.Unplugged := by
  cases action with
  | session move => exact sessionSteps_unplugged h rfl (sessionStep_spec hstep)
  | thread index answer =>
      obtain ⟨pc, out, hpc, hreconnects, rfl, -⟩ := threadStep_eq_some hstep
      exact stepped_unplugged h hconsistent hpc hreconnects

theorem connected_unplugged (readerCrypto writerCrypto : CryptoHandler) :
    (connected readerCrypto writerCrypto).Unplugged := by
  refine ⟨?_, ?_, ?_, ?_⟩
  · intro i pc hpc
    simp [connected] at hpc
  · intro i pc hpc
    simp [connected] at hpc
  · intro stage caller hsession
    simp [connected] at hsession
  · intro stage caller hsession
    simp [connected] at hsession

end Client

/-! ### The client is a succession of links -/

/-- What goes out on a connection, and on which. -/
abbrev Transmission := Sign (Int × List Bytes) Bytes

def ClientEvent.transmission? : ClientEvent → Option Transmission
  | .sent socket bytes => some (.used socket.connection bytes)
  | .reconnect _ (.catchup socket remoteSeq entries) =>
    some (.greeted socket.connection (remoteSeq, entries))
  | _ => none

/-- What the client is as a succession of links. -/
structure Represents (client : Client) (s : Succession) : Prop where
  consistent : client.Consistent
  unplugged : client.Unplugged
  opened : s.opened = client.shared.connections
  current : s.current = client.shared.writerSocket.map TcpStream.connection
  pending : ∀ (i : Nat) (pc : ReconnectPc) (socket : TcpStream), client.threads[i]? = some pc →
    pc.socket? = some socket → s.pending = some (socket.connection, pc.sentCatchup?.isSome)

theorem Calls.transmissions {events : List ClientEvent} (h : Calls events) :
    events.filterMap ClientEvent.transmission? = [] := by
  rw [List.filterMap_eq_nil_iff]
  intro event hmem
  obtain ⟨packet, rfl⟩ | ⟨result, rfl⟩ := h event hmem <;> rfl

section Simulation

variable {client next : Client} {s : Succession}

open Succession

theorem Represents.quiet (h : Represents client s) (hquiet : client.Quiet next)
    (hconsistent : next.Consistent) (hunplugged : next.Unplugged) :
    ∃ moves t, machine.run s moves = some (t, ([] : List Transmission))
      ∧ Represents next t := by
  have hpending : ∀ (i : Nat) (pc : ReconnectPc) (socket : TcpStream), next.threads[i]? = some pc →
      pc.socket? = some socket → s.pending = some (socket.connection, pc.sentCatchup?.isSome) :=
    fun i pc socket hpc hsocket => h.pending i pc socket (hquiet.getElem?_threads hpc hsocket) hsocket
  have hopened : s.opened = next.shared.connections := h.opened.trans hquiet.connections.symm
  cases hsocket : next.shared.writerSocket with
  | none =>
      refine ⟨[.leave], { s with current := none }, rfl, hconsistent, hunplugged, hopened, ?_, hpending⟩
      simp [hsocket]
  | some socket =>
      refine ⟨[], s, rfl, hconsistent, hunplugged, hopened, ?_, hpending⟩
      rw [h.current, hquiet.writerSocket hsocket, hsocket]

theorem transmissions_writeEvents {writer : BackedWriter} {packet : Packet} {results : List IoResult}
    {out : WriteOutput} (h : writer.Writes packet results out) :
    (Client.writeEvents writer packet out).filterMap ClientEvent.transmission? =
      match out.pushed, writer.socket with
      | some _, some socket => [.used socket.connection out.sent]
      | _, _ => [] := by
  cases h with
  | refused hrefuses => rfl
  | notEncrypted hrefuses hencrypt => rfl
  | buffered hrefuses hencrypt hsocket => simp [Client.writeEvents, hsocket, ClientEvent.transmission?]
  | sent hencrypt hsocket hall =>
      simp only [Client.writeEvents, hsocket]
      rfl
  | broken hencrypt hsocket hfail =>
      simp only [Client.writeEvents, hsocket]
      rfl

/-- A frame goes out on the link in use; if it breaks, the link is left. -/
theorem Represents.writes {writer : BackedWriter} {packet : Packet} {results : List IoResult}
    {out : WriteOutput} {session : SessionPc} (h : Represents client s)
    (hwriter : client.shared.writer = some writer) (hwrites : writer.Writes packet results out)
    (hnext : next = { client with shared := { client.shared with writer := some out.writer }, session })
    (hconsistent : next.Consistent) (hunplugged : next.Unplugged) :
    ∃ moves t, machine.run s moves =
        some (t, (Client.writeEvents writer packet out).filterMap ClientEvent.transmission?)
      ∧ Represents next t := by
  have hcurrent : s.current = writer.socket.map TcpStream.connection := by
    rw [h.current, Shared.writerSocket, hwriter]
    rfl
  have hrepresents : ∀ current, current = out.writer.socket.map TcpStream.connection →
      Represents next { s with current } := by
    intro current hcurrent'
    subst hnext
    exact ⟨hconsistent, hunplugged, h.opened, hcurrent', h.pending⟩
  rw [transmissions_writeEvents hwrites]
  cases hwrites with
  | refused hrefuses => exact ⟨[], s, rfl, hrepresents s.current hcurrent⟩
  | notEncrypted hrefuses hencrypt => exact ⟨[], s, rfl, hrepresents s.current hcurrent⟩
  | buffered hrefuses hencrypt hsocket =>
      refine ⟨[], s, ?_, hrepresents s.current hcurrent⟩
      simp [hsocket]
  | @sent stored crypto socket hencrypt hsocket hall =>
      refine ⟨[.use (frame stored.serialize)], s, ?_, hrepresents s.current hcurrent⟩
      rw [Transducer.run_singleton]
      simp [machine, hcurrent, hsocket]
  | @broken stored crypto socket e sent hencrypt hsocket hfail =>
      refine ⟨[.use sent, .leave], { s with current := none }, ?_, hrepresents none rfl⟩
      simp [Transducer.run, machine, hcurrent, hsocket]

/-- After a step of a thread only that thread can have a connection. -/
theorem Represents.stepped {index : Nat} {pc : ReconnectPc} {out : ReconnectOutput} {t : Succession}
    (h : Represents client s) (hpc : client.threads[index]? = some pc)
    (hstep : Reconnects client.shared pc out) (hopened : t.opened = out.shared.connections)
    (hcurrent : t.current = out.shared.writerSocket.map TcpStream.connection)
    (hpending : ∀ socket, out.pc.socket? = some socket →
      t.pending = some (socket.connection, out.pc.sentCatchup?.isSome)) :
    Represents (client.stepped index out) t := by
  obtain ⟨handle, howned⟩ := h.consistent.owned
  have hlt : index < client.threads.length := (List.getElem?_eq_some_iff.mp hpc).1
  refine ⟨Client.stepped_consistent h.consistent hpc hstep,
    Client.stepped_unplugged h.unplugged h.consistent hpc hstep, hopened, hcurrent,
    fun j pc' socket hj hsocket => ?_⟩
  have hne : pc' ≠ .finished := by
    rintro rfl
    cases hsocket
  obtain ⟨rfl, -⟩ := howned.running_step hpc hstep ⟨pc', hj, hne⟩
  simp only [Client.stepped, List.getElem?_set_self hlt, Option.some.injEq] at hj
  subst hj
  exact hpending socket hsocket

theorem Represents.thread {index : Nat} {pc : ReconnectPc} {out : ReconnectOutput}
    (h : Represents client s) (hpc : client.threads[index]? = some pc)
    (hstep : Reconnects client.shared pc out) :
    ∃ moves t, machine.run s moves =
        some (t, (out.events.map (.reconnect index)).filterMap ClientEvent.transmission?)
      ∧ Represents (client.stepped index out) t := by
  have hstay : ∀ out', Reconnects client.shared pc out' → out'.shared = client.shared →
      (∀ socket, out'.pc.socket? = some socket → pc.socket? = some socket
        ∧ out'.pc.sentCatchup?.isSome = pc.sentCatchup?.isSome) →
      Represents (client.stepped index out') s := by
    intro out' hstep' hshared hkept
    refine h.stepped hpc hstep' (hshared ▸ h.opened) (hshared ▸ h.current) fun socket hsocket => ?_
    obtain ⟨hbefore, hsent⟩ := hkept socket hsocket
    rw [hsent]
    exact h.pending index pc socket hpc hbefore
  cases hstep with
  | leaves htrying hflag =>
      exact ⟨[], s, rfl, hstay _ (.leaves htrying hflag) rfl (by simp [ReconnectPc.socket?])⟩
  | fails e htrying =>
      exact ⟨[], s, rfl, hstay _ (.fails e htrying) rfl (by simp [attemptFails, ReconnectPc.socket?])⟩
  | rejects htrying =>
      exact ⟨[], s, rfl, hstay _ (.rejects htrying) rfl (by simp [ReconnectPc.socket?])⟩
  | moves htrying htrying' hsocket hsent hheld =>
      refine ⟨[], s, rfl, hstay _ (.moves htrying htrying' hsocket hsent hheld) rfl
        fun socket hsome => ?_⟩
      rcases hsocket with hsame | hnone
      · exact ⟨hsame ▸ hsome, congrArg Option.isSome hsent⟩
      · cases hnone.symm.trans hsome
  | recovers hentries => exact ⟨[], s, rfl, hstay _ (.recovers hentries) rfl fun _ hsome => ⟨hsome, rfl⟩⟩
  | opens =>
      have hfree : s.current = none := by
        rw [h.current, h.unplugged.writer index _ hpc (.inl ⟨by simp, by simp, id⟩)]
        rfl
      refine ⟨[.abandon, .openLink],
        { opened := s.opened + 1, pending := some (s.opened, false), current := s.current }, ?_,
        h.stepped hpc .opens ?_ h.current fun socket hsocket => ?_⟩
      · simp [Transducer.run, machine, hfree]
      · exact congrArg (· + 1) h.opened
      · obtain rfl := Option.some.inj hsocket
        simp [h.opened, ReconnectPc.sentCatchup?]
  | @sends socket remoteSeq entries =>
      have hpending := h.pending index _ socket hpc rfl
      refine ⟨[.greet (remoteSeq, entries)], { s with pending := some (socket.connection, true) }, ?_,
        h.stepped hpc .sends h.opened h.current fun socket' hsocket => ?_⟩
      · rw [Transducer.run_singleton]
        simp only [machine, hpending]
        rfl
      · obtain rfl := Option.some.inj hsocket
        rfl
  | revivesReader =>
      refine ⟨[], s, rfl, h.stepped hpc .revivesReader h.opened h.current fun socket hsocket => ?_⟩
      have hpending := h.pending index _ socket hpc hsocket
      exact hpending
  | @revivesWriter socket remoteSeq entries =>
      have hpending := h.pending index _ socket hpc rfl
      have hfree : s.current = none := by
        rw [h.current, h.unplugged.writer index _ hpc (.inr trivial)]
        rfl
      obtain ⟨handle, howned⟩ := h.consistent.owned
      obtain ⟨writer, hwriter⟩ := Option.isSome_iff_exists.mp
        (howned.present (.inr ⟨index, _, hpc, by simp⟩)).2
      refine ⟨[.adopt], { s with pending := none, current := some socket.connection }, ?_,
        h.stepped hpc .revivesWriter h.opened ?_ (by simp [ReconnectPc.socket?])⟩
      · rw [Transducer.run_singleton]
        simp only [machine, hpending, hfree]
        rfl
      · simp [Shared.writerSocket, hwriter, BackedWriter.revive]
  | succeeds =>
      exact ⟨[], s, rfl, h.stepped hpc .succeeds h.opened h.current (by simp [ReconnectPc.socket?])⟩
  | ends => exact ⟨[], s, rfl, h.stepped hpc .ends h.opened h.current (by simp [ReconnectPc.socket?])⟩

theorem Represents.step {action : ClientAction} {events : List ClientEvent} (h : Represents client s)
    (hstep : clientMachine client action = some (next, events)) :
    ∃ moves t, machine.run s moves = some (t, events.filterMap ClientEvent.transmission?)
      ∧ Represents next t := by
  have hconsistent := clientMachine_consistent h.consistent hstep
  have hunplugged := Client.clientMachine_unplugged h.unplugged h.consistent hstep
  cases action with
  | session move =>
      have heffect := (Client.sessionStep_spec hstep).effect
      cases heffect with
      | quiet hquiet hcalls =>
          rw [hcalls.transmissions]
          exact h.quiet hquiet hconsistent hunplugged
      | writes hwriter hwrites hcalls =>
          rw [List.filterMap_append, hcalls.transmissions, List.append_nil]
          exact h.writes hwriter hwrites rfl hconsistent hunplugged
  | thread index answer =>
      obtain ⟨pc, out, hpc, hreconnects, rfl, rfl⟩ := Client.threadStep_eq_some hstep
      exact h.thread hpc hreconnects

theorem connected_represents (readerCrypto writerCrypto : CryptoHandler) :
    Represents (Client.connected readerCrypto writerCrypto) .first := by
  refine ⟨connected_consistent _ _, Client.connected_unplugged _ _, rfl, rfl, ?_⟩
  intro i pc socket hpc
  simp [Client.connected] at hpc

end Simulation

/-! ### The reader -/

/-- Every socket that is held is of the connection made last. -/
structure Client.Newest (client : Client) : Prop where
  reader : ∀ socket, client.shared.readerSocket = some socket →
    socket.connection + 1 = client.shared.connections
  thread : ∀ (i : Nat) (pc : ReconnectPc) (socket : TcpStream), client.threads[i]? = some pc →
    pc.socket? = some socket → socket.connection + 1 = client.shared.connections

namespace Client

variable {client next : Client}

theorem closeStep_readerSocket {caller : Caller} {stage : CloseStage} {socket : TcpStream}
    (hstep : client.closeStep caller stage = some next)
    (hsocket : next.shared.readerSocket = some socket) :
    client.shared.readerSocket = some socket := by
  cases stage with
  | takeHandle =>
      simp only [closeStep] at hstep
      split at hstep <;> obtain rfl := Option.some.inj hstep <;> exact hsocket
  | joining thread =>
      simp only [closeStep] at hstep
      split_ifs at hstep
      obtain rfl := Option.some.inj hstep
      exact hsocket
  | invalidateReader =>
      obtain rfl := Option.some.inj hstep
      have hcut : (client.shared.reader.map BackedReader.invalidateSocket).bind
          BackedReader.socket = none := by
        cases client.shared.reader <;> rfl
      cases hcut.symm.trans hsocket
  | maybeSpawn =>
      simp only [closeStep] at hstep
      split_ifs at hstep <;> obtain rfl := Option.some.inj hstep <;> exact hsocket
  | _ =>
      obtain rfl := Option.some.inj hstep
      exact hsocket

theorem shutdownStep_readerSocket {stage : ShutdownStage} {socket : TcpStream}
    (hstep : client.shutdownStep stage = some next)
    (hsocket : next.shared.readerSocket = some socket) :
    client.shared.readerSocket = some socket := by
  cases stage with
  | takeHandle =>
      simp only [shutdownStep] at hstep
      split at hstep <;> obtain rfl := Option.some.inj hstep <;> exact hsocket
  | joining thread =>
      simp only [shutdownStep] at hstep
      split_ifs at hstep
      obtain rfl := Option.some.inj hstep
      exact hsocket
  | clearReader =>
      obtain rfl := Option.some.inj hstep
      cases hsocket
  | _ =>
      obtain rfl := Option.some.inj hstep
      exact hsocket

theorem SessionSteps.readerSocket {session : SessionPc} {move : SessionMove}
    {events : List ClientEvent} {socket : TcpStream}
    (h : SessionSteps client session move next events)
    (hsocket : next.shared.readerSocket = some socket) :
    client.shared.readerSocket = some socket := by
  cases h with
  | read hreader hreads hnext =>
      simp only [Shared.readerSocket, hreader, Option.bind_some] at hsocket ⊢
      exact hreads.socket_eq ▸ hsocket
  | closing hclose => exact closeStep_readerSocket hclose hsocket
  | shutdown hshutdown => exact shutdownStep_readerSocket hshutdown hsocket
  | _ => exact hsocket

theorem SessionEffect.connections {events : List ClientEvent} (h : SessionEffect client next events) :
    next.shared.connections = client.shared.connections := by
  cases h with
  | quiet hquiet hcalls => exact hquiet.connections
  | writes hwriter hwrites hcalls => rfl

theorem SessionEffect.getElem?_threads {events : List ClientEvent}
    (h : SessionEffect client next events) {i : Nat} {pc : ReconnectPc} {socket : TcpStream}
    (hpc : next.threads[i]? = some pc) (hsocket : pc.socket? = some socket) :
    client.threads[i]? = some pc := by
  cases h with
  | quiet hquiet hcalls => exact hquiet.getElem?_threads hpc hsocket
  | writes hwriter hwrites hcalls => exact hpc

end Client

theorem Reconnects.socket_cases {shared : Shared} {pc : ReconnectPc} {out : ReconnectOutput}
    {socket : TcpStream} (h : Reconnects shared pc out) (hsocket : out.pc.socket? = some socket) :
    (pc.socket? = some socket ∧ out.shared.connections = shared.connections)
      ∨ socket.connection + 1 = out.shared.connections := by
  cases h with
  | opens =>
      obtain rfl := Option.some.inj hsocket
      exact .inr rfl
  | moves htrying htrying' hsame hsent hheld =>
      rcases hsame with hsame | hnone
      · exact .inl ⟨hsame ▸ hsocket, rfl⟩
      · cases hnone.symm.trans hsocket
  | recovers hentries => exact .inl ⟨hsocket, rfl⟩
  | sends => exact .inl ⟨hsocket, rfl⟩
  | revivesReader => exact .inl ⟨hsocket, rfl⟩
  | _ => cases hsocket

/-- The reader's socket after a step of a thread: the one before, or that of the thread. -/
theorem Reconnects.readerSocket_cases {shared : Shared} {pc : ReconnectPc} {out : ReconnectOutput}
    {socket : TcpStream} (h : Reconnects shared pc out)
    (hsocket : out.shared.readerSocket = some socket) :
    out.shared.readerSocket = shared.readerSocket
      ∨ (pc.socket? = some socket ∧ out.shared.connections = shared.connections) := by
  cases h with
  | @revivesReader socket' remoteSeq entries catchupIn =>
      obtain ⟨reader, hreader, hlive⟩ := Option.bind_eq_some_iff.mp hsocket
      obtain ⟨before, -, rfl⟩ := Option.map_eq_some_iff.mp hreader
      exact .inr ⟨hlive, rfl⟩
  | _ => exact .inl rfl

namespace Client

variable {client next : Client}

theorem clientMachine_newest {action : ClientAction} {events : List ClientEvent} (h : client.Newest)
    (hconsistent : client.Consistent) (hunplugged : client.Unplugged)
    (hstep : clientMachine client action = some (next, events)) : next.Newest := by
  cases action with
  | session move =>
      have hsteps := sessionStep_spec hstep
      have heffect := hsteps.effect
      refine ⟨fun socket hsocket => ?_, fun i pc socket hpc hsocket => ?_⟩
      · rw [heffect.connections]
        exact h.reader socket (hsteps.readerSocket hsocket)
      · rw [heffect.connections]
        exact h.thread i pc socket (heffect.getElem?_threads hpc hsocket) hsocket
  | thread index answer =>
      obtain ⟨pc, out, hpc, hreconnects, rfl, -⟩ := threadStep_eq_some hstep
      obtain ⟨handle, howned⟩ := hconsistent.owned
      have hlt : index < client.threads.length := (List.getElem?_eq_some_iff.mp hpc).1
      refine ⟨fun socket hsocket => ?_, fun j pc' socket hj hsocket => ?_⟩
      · rcases hreconnects.readerSocket_cases hsocket with hsame | ⟨hpcSocket, hconnections⟩
        · have hbefore : client.shared.readerSocket = some socket := hsame.symm.trans hsocket
          cases hreconnects with
          | opens =>
              have hnone := hunplugged.reader index _ hpc ⟨by simp, by simp, id⟩
              cases hnone.symm.trans hbefore
          | _ => exact h.reader socket hbefore
        · exact (h.thread index pc socket hpc hpcSocket).trans hconnections.symm
      · have hne : pc' ≠ .finished := by
          rintro rfl
          cases hsocket
        obtain ⟨rfl, -⟩ := howned.running_step hpc hreconnects ⟨pc', hj, hne⟩
        simp only [stepped, List.getElem?_set_self hlt, Option.some.injEq] at hj
        subst hj
        rcases hreconnects.socket_cases hsocket with ⟨hpcSocket, hconnections⟩ | hnew
        · exact (h.thread j pc socket hpc hpcSocket).trans hconnections.symm
        · exact hnew

theorem connected_newest (readerCrypto writerCrypto : CryptoHandler) :
    (connected readerCrypto writerCrypto).Newest := by
  refine ⟨fun socket hsocket => ?_, fun i pc socket hpc => ?_⟩
  · obtain rfl := Option.some.inj hsocket
    rfl
  · simp [connected] at hpc

end Client

/-- **One connection after another.** In every run after a successful `connect`, the catch-ups and the
frames go out in the order of their connections; on each connection the catch-up is the first thing sent
and is sent once, and only the connection of `connect` has none. A socket that the reader or the writer
holds is always of the connection made last, so the two are never on different ones. -/
theorem connections_in_succession {readerCrypto writerCrypto : CryptoHandler}
    {actions : List ClientAction} {client : Client} {events : List ClientEvent}
    (hrun : clientMachine.run (Client.connected readerCrypto writerCrypto) actions =
      some (client, events)) :
    Sign.InOrder (events.filterMap ClientEvent.transmission?)
      ∧ ∀ socket, client.shared.readerSocket = some socket ∨ client.shared.writerSocket = some socket →
          socket.connection + 1 = client.shared.connections := by
  obtain ⟨moves, s, hsuccession, hrepresents⟩ :=
    clientMachine.run_forward Represents.step (connected_represents readerCrypto writerCrypto) hrun
  have hsound := Succession.run_sound hsuccession
  refine ⟨hsound.order, fun socket hsocket => ?_⟩
  rcases hsocket with hreader | hwriter
  · have hnewest : client.Consistent ∧ client.Unplugged ∧ client.Newest :=
      clientMachine.run_invariant_state
        (I := fun during => during.Consistent ∧ during.Unplugged ∧ during.Newest)
        (fun h hstep => ⟨clientMachine_consistent h.1 hstep,
          Client.clientMachine_unplugged h.2.1 h.1 hstep,
          Client.clientMachine_newest h.2.2 h.1 h.2.1 hstep⟩)
        ⟨connected_consistent _ _, Client.connected_unplugged _ _, Client.connected_newest _ _⟩ hrun
    exact hnewest.2.2.reader socket hreader
  · have hcurrent := hrepresents.current
    rw [hwriter] at hcurrent
    rw [← hrepresents.opened]
    exact (hsound.current socket.connection hcurrent).1

/-- A close and a reconnect with an empty catch-up. -/
theorem connections_in_succession_after_reconnect :
    let crypto : CryptoHandler := ⟨tagCipher, .start clientServerNonceMsb⟩
    ∃ client events, clientMachine.run (Client.connected crypto crypto)
        (.session .closeAndMaybeReconnect :: List.replicate 6 (.session .step)
          ++ List.replicate 4 (.thread 0 .done)
          ++ [.thread 0 (.response { status := some .returningClient }), .thread 0 .done,
            .thread 0 .done, .thread 0 (.sequence { sequenceNumber := some 0 }), .thread 0 .done,
            .thread 0 .done, .thread 0 (.catchup { buffer := [] }), .thread 0 .done,
            .thread 0 .done, .thread 0 .done]) = some (client, events)
      ∧ client.shared.connections = 2
      ∧ Sign.InOrder (events.filterMap ClientEvent.transmission?) := by
  intro crypto
  have hran : (clientMachine.run (Client.connected crypto crypto)
        (.session .closeAndMaybeReconnect :: List.replicate 6 (.session .step)
          ++ List.replicate 4 (.thread 0 .done)
          ++ [.thread 0 (.response { status := some .returningClient }), .thread 0 .done,
            .thread 0 .done, .thread 0 (.sequence { sequenceNumber := some 0 }), .thread 0 .done,
            .thread 0 .done, .thread 0 (.catchup { buffer := [] }), .thread 0 .done,
            .thread 0 .done, .thread 0 .done])).map (fun out => out.1.shared.writerSocket) =
      some (some ⟨1⟩) := by
    decide +kernel
  obtain ⟨⟨client, events⟩, hrun, hsocket⟩ := Option.map_eq_some_iff.mp hran
  obtain ⟨horder, hnewest⟩ := connections_in_succession hrun
  exact ⟨client, events, hrun, (hnewest _ (.inr hsocket)).symm, horder⟩

end EternalTerminal
