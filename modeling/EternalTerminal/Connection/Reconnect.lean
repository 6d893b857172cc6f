import EternalTerminal.Connection.Handshake

/-!
# The reconnect thread (`connection.rs`, `reconnect_loop`)

The thread is a program counter that takes one step at a time: a load or a store of a flag, one
message of `try_recover` sent or received, or one critical section of a lock. Between two steps the
session thread may do anything. What the network answers comes with the step.
-/

namespace EternalTerminal

/-- `Shared`. `connections` is not in the source: it numbers the connections made. -/
structure Shared where
  reader : Option BackedReader
  writer : Option BackedWriter
  socketAlive : Bool
  shuttingDown : Bool
  connections : Nat

namespace Shared

def readerSocket (shared : Shared) : Option TcpStream := shared.reader.bind BackedReader.socket

def writerSocket (shared : Shared) : Option TcpStream := shared.writer.bind BackedWriter.socket

end Shared

/-- Where a reconnect thread is, with the locals of `try_recover` that are still in scope. -/
inductive ReconnectPc where
  | loopHead
  | checkShutdown
  | connecting
  | requesting (socket : TcpStream)
  | awaitingResponse (socket : TcpStream)
  | readingSequence (socket : TcpStream)
  | sendingSequence (socket : TcpStream) (localSeq : Int)
  | awaitingSequence (socket : TcpStream)
  | recovering (socket : TcpStream) (remoteSeq : Int)
  | sendingCatchup (socket : TcpStream) (remoteSeq : Int) (catchupOut : List Bytes)
  | awaitingCatchup (socket : TcpStream) (remoteSeq : Int) (catchupOut : List Bytes)
  | preparing (socket : TcpStream) (remoteSeq : Int) (catchupOut catchupIn : List Bytes)
  | revivingReader (socket : TcpStream) (remoteSeq : Int) (catchupOut catchupIn : List Bytes)
  | revivingWriter (socket : TcpStream) (remoteSeq : Int) (catchupOut : List Bytes)
  /-- `Ok(true)` -/
  | recovered
  /-- `Ok(false)` -/
  | rejected
  /-- `Err` -/
  | sleeping
  | finished
  deriving DecidableEq

/-- How the I/O of a step comes out; `done` is also the answer where there is none. -/
inductive Answer where
  | fail (e : Error)
  | done
  | response (resp : ConnectResponse)
  | sequence (remote : SequenceHeader)
  | catchup (cb : CatchupBuffer)

inductive ReconnectEvent where
  /-- The catch-up buffer went out on this connection. -/
  | catchup (socket : TcpStream) (remoteSeq : Int) (entries : List Bytes)
  /-- The reader or the writer was given the new socket. -/
  | revived
  /-- The attempt ended in `Err`. -/
  | failed (e : Error)
  /-- The attempt ended in `Ok(false)`. -/
  | rejected
  deriving DecidableEq

/-- What a step leaves behind. -/
structure ReconnectOutput where
  shared : Shared
  pc : ReconnectPc
  events : List ReconnectEvent

/-- The step that ends an attempt with an error. -/
def attemptFails (shared : Shared) (e : Error) : ReconnectOutput := ⟨shared, .sleeping, [.failed e]⟩

/-- One step of a reconnect thread; `none` if the answer is not one to what it does. -/
def reconnectStep (shared : Shared) : ReconnectPc → Answer → Option ReconnectOutput
  | .loopHead, .done =>
    some ⟨shared, if shared.socketAlive then .finished else .checkShutdown, []⟩
  | .checkShutdown, .done =>
    some ⟨shared, if shared.shuttingDown then .finished else .connecting, []⟩
  | .connecting, .done =>
    some ⟨{ shared with connections := shared.connections + 1 }, .requesting ⟨shared.connections⟩, []⟩
  | .connecting, .fail e => some (attemptFails shared e)
  | .requesting socket, .done => some ⟨shared, .awaitingResponse socket, []⟩
  | .requesting _, .fail e => some (attemptFails shared e)
  | .awaitingResponse socket, .response resp =>
    match returningStatus resp with
    | .ok true => some ⟨shared, .readingSequence socket, []⟩
    | .ok false => some ⟨shared, .rejected, [.rejected]⟩
    | .error e => some (attemptFails shared e)
  | .awaitingResponse _, .fail e => some (attemptFails shared e)
  | .readingSequence socket, .done =>
    some ⟨shared, .sendingSequence socket (localSequence shared.reader), []⟩
  | .sendingSequence socket _, .done => some ⟨shared, .awaitingSequence socket, []⟩
  | .sendingSequence _ _, .fail e => some (attemptFails shared e)
  | .awaitingSequence socket, .sequence remote =>
    some ⟨shared, .recovering socket (remoteSequence remote), []⟩
  | .awaitingSequence _, .fail e => some (attemptFails shared e)
  | .recovering socket remoteSeq, .done =>
    match catchupOut shared.writer remoteSeq with
    | .ok entries => some ⟨shared, .sendingCatchup socket remoteSeq entries, []⟩
    | .error e => some (attemptFails shared e)
  | .sendingCatchup socket remoteSeq entries, .done =>
    some ⟨shared, .awaitingCatchup socket remoteSeq entries, [.catchup socket remoteSeq entries]⟩
  | .sendingCatchup _ _ _, .fail e => some (attemptFails shared e)
  | .awaitingCatchup socket remoteSeq entries, .catchup cb =>
    some ⟨shared, .preparing socket remoteSeq entries cb.buffer, []⟩
  | .awaitingCatchup _ _ _, .fail e => some (attemptFails shared e)
  | .preparing socket remoteSeq entries catchupIn, .done =>
    some ⟨shared, .revivingReader socket remoteSeq entries catchupIn, []⟩
  | .preparing _ _ _ _, .fail e => some (attemptFails shared e)
  | .revivingReader socket remoteSeq entries catchupIn, .done =>
    some ⟨{ shared with reader := shared.reader.map fun reader => reader.revive socket catchupIn },
      .revivingWriter socket remoteSeq entries, [.revived]⟩
  | .revivingWriter socket _ _, .done =>
    some ⟨{ shared with writer := shared.writer.map fun writer => writer.revive socket },
      .recovered, [.revived]⟩
  | .recovered, .done => some ⟨{ shared with socketAlive := true }, .finished, []⟩
  | .rejected, .done => some ⟨{ shared with shuttingDown := true }, .finished, []⟩
  | .sleeping, .done => some ⟨shared, .loopHead, []⟩
  | _, _ => none

/-! ### What a step does

The rest of the development knows a reconnect thread only through what its program counter holds and
the cases of `Reconnects`. -/

namespace ReconnectPc

/-- The connection of the attempt under way. -/
def socket? : ReconnectPc → Option TcpStream
  | .requesting socket => some socket
  | .awaitingResponse socket => some socket
  | .readingSequence socket => some socket
  | .sendingSequence socket _ => some socket
  | .awaitingSequence socket => some socket
  | .recovering socket _ => some socket
  | .sendingCatchup socket _ _ => some socket
  | .awaitingCatchup socket _ _ => some socket
  | .preparing socket _ _ _ => some socket
  | .revivingReader socket _ _ _ => some socket
  | .revivingWriter socket _ _ => some socket
  | _ => none

/-- The catch-up it has sent. -/
def sentCatchup? : ReconnectPc → Option (Int × List Bytes)
  | .awaitingCatchup _ remoteSeq entries => some (remoteSeq, entries)
  | .preparing _ remoteSeq entries _ => some (remoteSeq, entries)
  | .revivingReader _ remoteSeq entries _ => some (remoteSeq, entries)
  | .revivingWriter _ remoteSeq entries => some (remoteSeq, entries)
  | _ => none

/-- The catch-up it has and has not sent. -/
def heldCatchup? : ReconnectPc → Option (Int × List Bytes)
  | .sendingCatchup _ remoteSeq entries => some (remoteSeq, entries)
  | _ => none

/-- The reader has its new socket and the writer has not. -/
def ReaderRevived : ReconnectPc → Prop
  | .revivingWriter _ _ _ => True
  | _ => False

/-- The thread is under way and has not begun to revive. -/
def Trying (pc : ReconnectPc) : Prop := pc ≠ .finished ∧ pc ≠ .recovered ∧ ¬ pc.ReaderRevived

end ReconnectPc

open ReconnectPc in
/-- The ways a step can go. -/
inductive Reconnects (shared : Shared) : ReconnectPc → ReconnectOutput → Prop
  /-- The loop ends because of a flag. -/
  | leaves {pc} : pc.Trying → shared.socketAlive = true ∨ shared.shuttingDown = true →
      Reconnects shared pc ⟨shared, .finished, []⟩
  | fails {pc} (e : Error) : pc.Trying → Reconnects shared pc (attemptFails shared e)
  | opens : Reconnects shared .connecting
      ⟨{ shared with connections := shared.connections + 1 }, .requesting ⟨shared.connections⟩, []⟩
  /-- A message or a load, and on to a place that holds the same. -/
  | moves {pc pc'} : pc.Trying → pc'.Trying →
      (pc'.socket? = pc.socket? ∨ pc'.socket? = none) → pc'.sentCatchup? = pc.sentCatchup? →
      pc'.heldCatchup? = none → Reconnects shared pc ⟨shared, pc', []⟩
  | rejects {pc} : pc.Trying → Reconnects shared pc ⟨shared, .rejected, [.rejected]⟩
  | recovers {socket remoteSeq entries} : catchupOut shared.writer remoteSeq = .ok entries →
      Reconnects shared (.recovering socket remoteSeq)
        ⟨shared, .sendingCatchup socket remoteSeq entries, []⟩
  | sends {socket remoteSeq entries} : Reconnects shared (.sendingCatchup socket remoteSeq entries)
      ⟨shared, .awaitingCatchup socket remoteSeq entries, [.catchup socket remoteSeq entries]⟩
  | revivesReader {socket remoteSeq entries catchupIn} :
      Reconnects shared (.revivingReader socket remoteSeq entries catchupIn)
        ⟨{ shared with reader := shared.reader.map fun reader => reader.revive socket catchupIn },
          .revivingWriter socket remoteSeq entries, [.revived]⟩
  | revivesWriter {socket remoteSeq entries} :
      Reconnects shared (.revivingWriter socket remoteSeq entries)
        ⟨{ shared with writer := shared.writer.map fun writer => writer.revive socket }, .recovered,
          [.revived]⟩
  | succeeds : Reconnects shared .recovered ⟨{ shared with socketAlive := true }, .finished, []⟩
  | ends : Reconnects shared .rejected ⟨{ shared with shuttingDown := true }, .finished, []⟩

theorem reconnectStep_spec {shared : Shared} {pc : ReconnectPc} {answer : Answer}
    {out : ReconnectOutput} (h : reconnectStep shared pc answer = some out) :
    Reconnects shared pc out := by
  cases pc with
  | loopHead =>
      cases answer <;> simp only [reconnectStep, Option.some.injEq, reduceCtorEq] at h
      subst h
      split_ifs with halive
      · exact .leaves ⟨nofun, nofun, id⟩ (.inl halive)
      · exact .moves ⟨nofun, nofun, id⟩ ⟨nofun, nofun, id⟩ (.inl rfl) rfl rfl
  | checkShutdown =>
      cases answer <;> simp only [reconnectStep, Option.some.injEq, reduceCtorEq] at h
      subst h
      split_ifs with hshutdown
      · exact .leaves ⟨nofun, nofun, id⟩ (.inr hshutdown)
      · exact .moves ⟨nofun, nofun, id⟩ ⟨nofun, nofun, id⟩ (.inl rfl) rfl rfl
  | connecting =>
      cases answer <;> simp only [reconnectStep, Option.some.injEq, reduceCtorEq] at h <;> subst h
      · exact .fails _ ⟨nofun, nofun, id⟩
      · exact .opens
  | requesting socket =>
      cases answer <;> simp only [reconnectStep, Option.some.injEq, reduceCtorEq] at h <;> subst h
      · exact .fails _ ⟨nofun, nofun, id⟩
      · exact .moves ⟨nofun, nofun, id⟩ ⟨nofun, nofun, id⟩ (.inl rfl) rfl rfl
  | awaitingResponse socket =>
      cases answer <;> simp only [reconnectStep, Option.some.injEq, reduceCtorEq] at h
      · exact h ▸ .fails _ ⟨nofun, nofun, id⟩
      · split at h <;> simp only [Option.some.injEq] at h <;> subst h
        · exact .moves ⟨nofun, nofun, id⟩ ⟨nofun, nofun, id⟩ (.inl rfl) rfl rfl
        · exact .rejects ⟨nofun, nofun, id⟩
        · exact .fails _ ⟨nofun, nofun, id⟩
  | readingSequence socket =>
      cases answer <;> simp only [reconnectStep, Option.some.injEq, reduceCtorEq] at h
      exact h ▸ .moves ⟨nofun, nofun, id⟩ ⟨nofun, nofun, id⟩ (.inl rfl) rfl rfl
  | sendingSequence socket localSeq =>
      cases answer <;> simp only [reconnectStep, Option.some.injEq, reduceCtorEq] at h <;> subst h
      · exact .fails _ ⟨nofun, nofun, id⟩
      · exact .moves ⟨nofun, nofun, id⟩ ⟨nofun, nofun, id⟩ (.inl rfl) rfl rfl
  | awaitingSequence socket =>
      cases answer <;> simp only [reconnectStep, Option.some.injEq, reduceCtorEq] at h <;> subst h
      · exact .fails _ ⟨nofun, nofun, id⟩
      · exact .moves ⟨nofun, nofun, id⟩ ⟨nofun, nofun, id⟩ (.inl rfl) rfl rfl
  | recovering socket remoteSeq =>
      cases answer <;> simp only [reconnectStep, reduceCtorEq] at h
      split at h <;> simp only [Option.some.injEq] at h <;> subst h
      · next hentries => exact .recovers hentries
      · exact .fails _ ⟨nofun, nofun, id⟩
  | sendingCatchup socket remoteSeq entries =>
      cases answer <;> simp only [reconnectStep, Option.some.injEq, reduceCtorEq] at h <;> subst h
      · exact .fails _ ⟨nofun, nofun, id⟩
      · exact .sends
  | awaitingCatchup socket remoteSeq entries =>
      cases answer <;> simp only [reconnectStep, Option.some.injEq, reduceCtorEq] at h <;> subst h
      · exact .fails _ ⟨nofun, nofun, id⟩
      · exact .moves ⟨nofun, nofun, id⟩ ⟨nofun, nofun, id⟩ (.inl rfl) rfl rfl
  | preparing socket remoteSeq entries catchupIn =>
      cases answer <;> simp only [reconnectStep, Option.some.injEq, reduceCtorEq] at h <;> subst h
      · exact .fails _ ⟨nofun, nofun, id⟩
      · exact .moves ⟨nofun, nofun, id⟩ ⟨nofun, nofun, id⟩ (.inl rfl) rfl rfl
  | revivingReader socket remoteSeq entries catchupIn =>
      cases answer <;> simp only [reconnectStep, Option.some.injEq, reduceCtorEq] at h
      exact h ▸ .revivesReader
  | revivingWriter socket remoteSeq entries =>
      cases answer <;> simp only [reconnectStep, Option.some.injEq, reduceCtorEq] at h
      exact h ▸ .revivesWriter
  | recovered =>
      cases answer <;> simp only [reconnectStep, Option.some.injEq, reduceCtorEq] at h
      exact h ▸ .succeeds
  | rejected =>
      cases answer <;> simp only [reconnectStep, Option.some.injEq, reduceCtorEq] at h
      exact h ▸ .ends
  | sleeping =>
      cases answer <;> simp only [reconnectStep, Option.some.injEq, reduceCtorEq] at h
      exact h ▸ .moves ⟨nofun, nofun, id⟩ ⟨nofun, nofun, id⟩ (.inl rfl) rfl rfl
  | finished =>
      cases answer <;> simp only [reconnectStep, reduceCtorEq] at h

theorem Reconnects.of_revivingWriter {shared : Shared} {socket : TcpStream} {remoteSeq : Int}
    {entries : List Bytes} {out : ReconnectOutput}
    (h : Reconnects shared (.revivingWriter socket remoteSeq entries) out) :
    out = ⟨{ shared with writer := shared.writer.map fun writer => writer.revive socket },
      .recovered, [.revived]⟩ := by
  cases h with
  | revivesWriter => rfl
  | leaves htrying hflag => exact absurd trivial htrying.2.2
  | fails e htrying => exact absurd trivial htrying.2.2
  | moves htrying htrying' hsocket hsent hheld => exact absurd trivial htrying.2.2
  | rejects htrying => exact absurd trivial htrying.2.2

end EternalTerminal
