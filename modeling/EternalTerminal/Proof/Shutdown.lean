import EternalTerminal.Proof.WaitReconnect

/-!
# After `shutdown`

When `shutdown` returns, nothing is left that could open, use or revive a connection, and no call on the
client brings any of it back.
-/

namespace EternalTerminal

namespace SessionPc

/-- Places that a client without reader, writer and handle can be at. -/
def Inert : SessionPc → Prop
  | .writeLocked _ => False
  | .closing (.joining _) _ => False
  | .closing (.storeHandle _) _ => False
  | .shutdown (.joining _) => False
  | _ => True

end SessionPc

namespace Client

/-- Nothing is left of the connection. -/
structure Closed (client : Client) : Prop where
  reader : client.shared.reader = none
  writer : client.shared.writer = none
  socketAlive : client.shared.socketAlive = false
  shuttingDown : client.shared.shuttingDown = true
  reconnectThread : client.reconnectThread = none
  ended : ∀ i, ¬ Running client.threads i
  session : client.session.Inert

/-- Calls of `write_packet`, and that they return `false`. -/
def Refuses (events : List ClientEvent) : Prop :=
  ∀ event ∈ events, (∃ packet, event = .called packet) ∨ event = .returned false

/-- What holds when the flag `socket_alive` is the last thing to clear. -/
structure Cleared (client : Client) : Prop where
  reader : ∀ stage, client.session = .shutdown stage → stage = .clearWriter ∨ stage = .clearAlive →
    client.shared.reader = none
  writer : client.session = .shutdown .clearAlive → client.shared.writer = none

variable {client next : Client}

theorem Cleared.of_ne (h : ∀ stage, next.session = .shutdown stage → stage ≠ .clearWriter
    ∧ stage ≠ .clearAlive) : next.Cleared := by
  refine ⟨fun stage hsession hstage => ?_, fun hsession => ?_⟩
  · rcases hstage with rfl | rfl
    · exact absurd rfl (h _ hsession).1
    · exact absurd rfl (h _ hsession).2
  · exact absurd rfl (h _ hsession).2

theorem shutdownStep_cleared {stage : ShutdownStage} (h : client.Cleared)
    (hsession : client.session = .shutdown stage)
    (hstep : client.shutdownStep stage = some next) : next.Cleared := by
  cases stage with
  | clearReader =>
      obtain rfl := Option.some.inj hstep
      exact ⟨fun _ _ _ => rfl, by simp⟩
  | clearWriter =>
      obtain rfl := Option.some.inj hstep
      exact ⟨fun _ _ _ => h.reader _ hsession (.inl rfl), fun _ => rfl⟩
  | takeHandle =>
      simp only [shutdownStep] at hstep
      split at hstep <;> obtain rfl := Option.some.inj hstep <;> exact .of_ne (by simp)
  | joining thread =>
      simp only [shutdownStep] at hstep
      split_ifs at hstep
      obtain rfl := Option.some.inj hstep
      exact .of_ne (by simp)
  | _ =>
      obtain rfl := Option.some.inj hstep
      exact .of_ne (by simp)

theorem returnTo_ne_shutdown (caller : Caller) (stage : ShutdownStage) :
    returnTo caller ≠ .shutdown stage := by
  cases caller <;> simp [returnTo]

theorem afterWrite_ne_shutdown (packet : Packet) (state : WriteState) (stage : ShutdownStage) :
    (afterWrite packet state).1 ≠ .shutdown stage := by
  cases state <;> simp [afterWrite]

/-- `shutdown` clears the reader, then the writer, and no thread brings them back. -/
theorem clientMachine_cleared {action : ClientAction} {events : List ClientEvent} (h : client.Cleared)
    (hconsistent : client.Consistent)
    (hstep : clientMachine client action = some (next, events)) : next.Cleared := by
  cases action with
  | session move =>
      have hsteps := sessionStep_spec hstep
      generalize hsession : client.session = session at hsteps
      cases hsteps with
      | writes hwriter hwrites =>
          exact .of_ne fun stage hnext => absurd hnext (afterWrite_ne_shutdown _ _ stage)
      | read hreader hreads hnext =>
          rcases hnext with rfl | rfl <;> exact .of_ne (by simp)
      | closing hclose =>
          refine .of_ne fun stage hnext => ?_
          rcases closeStep_session hclose with ⟨stage', hstage⟩ | hreturn
          · exact absurd (hstage.symm.trans hnext) (by simp)
          · exact absurd (hreturn.symm.trans hnext) (returnTo_ne_shutdown _ _)
      | shutdown hshutdown => exact shutdownStep_cleared h hsession hshutdown
      | _ => exact .of_ne (by simp)
  | thread index answer =>
      obtain ⟨pc, out, hpc, hreconnects, rfl, -⟩ := threadStep_eq_some hstep
      have hrunning : Running client.threads index := ⟨pc, hpc, hreconnects.ne_finished⟩
      refine .of_ne fun stage hnext => ?_
      have howned := hconsistent.owned_awaited (by
        rw [show client.session = .shutdown stage from hnext]
        exact id)
      have hsession : client.session = .shutdown stage := hnext
      rw [hsession] at howned
      refine ⟨?_, ?_⟩
      · rintro rfl
        exact howned.not_running index hrunning
      · rintro rfl
        exact howned.not_running index hrunning

theorem connected_cleared (readerCrypto writerCrypto : CryptoHandler) :
    (connected readerCrypto writerCrypto).Cleared := .of_ne (by simp [connected])

theorem connected_run_cleared {readerCrypto writerCrypto : CryptoHandler}
    {actions : List ClientAction} {events : List ClientEvent}
    (h : clientMachine.run (connected readerCrypto writerCrypto) actions = some (client, events)) :
    client.Cleared := by
  refine (clientMachine.run_invariant_state (I := fun during => during.Consistent ∧ during.Cleared)
    (fun hduring hstep => ?_) ⟨connected_consistent _ _, connected_cleared _ _⟩ h).2
  exact ⟨clientMachine_consistent hduring.1 hstep, clientMachine_cleared hduring.2 hduring.1 hstep⟩

theorem closed_of_returns {stage : ShutdownStage} {action : ClientAction} {events : List ClientEvent}
    (hconsistent : client.Consistent) (hcleared : client.Cleared)
    (hsession : client.session = .shutdown stage)
    (hstep : clientMachine client action = some (next, events)) (hreturned : next.session = .idle) :
    next.Closed := by
  cases action with
  | thread index answer =>
      obtain ⟨pc, out, -, -, rfl, -⟩ := threadStep_eq_some hstep
      exact absurd (hsession.symm.trans hreturned) (by simp)
  | session move =>
      have hsteps := sessionStep_spec hstep
      rw [hsession] at hsteps
      cases hsteps with
      | shutdown hshutdown =>
          unfold Consistent at hconsistent
          rw [hsession] at hconsistent
          cases stage with
          | clearAlive =>
              obtain rfl := Option.some.inj hshutdown
              obtain ⟨hhandle, howned, hshut⟩ := hconsistent
              exact ⟨hcleared.reader _ hsession (.inr rfl), hcleared.writer hsession, rfl, hshut, hhandle,
                howned.not_running, trivial⟩
          | takeHandle =>
              simp only [shutdownStep] at hshutdown
              split at hshutdown <;> obtain rfl := Option.some.inj hshutdown <;>
                exact absurd hreturned (by simp)
          | joining thread =>
              simp only [shutdownStep] at hshutdown
              split_ifs at hshutdown
              obtain rfl := Option.some.inj hshutdown
              exact absurd hreturned (by simp)
          | _ =>
              obtain rfl := Option.some.inj hshutdown
              exact absurd hreturned (by simp)

/-! ### Nothing comes back -/

theorem Closed.closeStep (h : client.Closed) {caller : Caller} {stage : CloseStage}
    (hsession : client.session = .closing stage caller)
    (hstep : client.closeStep caller stage = some next) :
    next.Closed ∧ next.threads = client.threads := by
  have hinert := h.session
  rw [hsession] at hinert
  cases stage with
  | takeHandle =>
      simp only [Client.closeStep, h.reconnectThread, Option.some.injEq] at hstep
      subst hstep
      exact ⟨⟨h.reader, h.writer, h.socketAlive, h.shuttingDown, rfl, h.ended, trivial⟩, rfl⟩
  | joining thread => exact absurd hinert id
  | invalidateReader =>
      obtain rfl := Option.some.inj hstep
      exact ⟨⟨by simp [h.reader], h.writer, h.socketAlive, h.shuttingDown, h.reconnectThread, h.ended,
        trivial⟩, rfl⟩
  | invalidateWriter =>
      obtain rfl := Option.some.inj hstep
      exact ⟨⟨h.reader, by simp [h.writer], h.socketAlive, h.shuttingDown, h.reconnectThread, h.ended,
        trivial⟩, rfl⟩
  | clearAlive =>
      obtain rfl := Option.some.inj hstep
      exact ⟨⟨h.reader, h.writer, rfl, h.shuttingDown, h.reconnectThread, h.ended, trivial⟩, rfl⟩
  | maybeSpawn =>
      simp only [Client.closeStep, h.shuttingDown, if_true, Option.some.injEq] at hstep
      subst hstep
      refine ⟨⟨h.reader, h.writer, h.socketAlive, h.shuttingDown, h.reconnectThread, h.ended, ?_⟩, rfl⟩
      cases caller <;> exact trivial
  | storeHandle thread => exact absurd hinert id

theorem Closed.shutdownStep (h : client.Closed) {stage : ShutdownStage}
    (hsession : client.session = .shutdown stage)
    (hstep : client.shutdownStep stage = some next) :
    next.Closed ∧ next.threads = client.threads := by
  have hinert := h.session
  rw [hsession] at hinert
  cases stage with
  | setFlag =>
      obtain rfl := Option.some.inj hstep
      exact ⟨⟨h.reader, h.writer, h.socketAlive, rfl, h.reconnectThread, h.ended, trivial⟩, rfl⟩
  | takeHandle =>
      simp only [Client.shutdownStep, h.reconnectThread, Option.some.injEq] at hstep
      subst hstep
      exact ⟨⟨h.reader, h.writer, h.socketAlive, h.shuttingDown, rfl, h.ended, trivial⟩, rfl⟩
  | joining thread => exact absurd hinert id
  | clearReader =>
      obtain rfl := Option.some.inj hstep
      exact ⟨⟨rfl, h.writer, h.socketAlive, h.shuttingDown, h.reconnectThread, h.ended, trivial⟩, rfl⟩
  | clearWriter =>
      obtain rfl := Option.some.inj hstep
      exact ⟨⟨h.reader, rfl, h.socketAlive, h.shuttingDown, h.reconnectThread, h.ended, trivial⟩, rfl⟩
  | clearAlive =>
      obtain rfl := Option.some.inj hstep
      exact ⟨⟨h.reader, h.writer, rfl, h.shuttingDown, h.reconnectThread, h.ended, trivial⟩, rfl⟩

theorem Closed.move (h : client.Closed) {session : SessionPc} (hinert : session.Inert) :
    ({ client with session } : Client).Closed :=
  ⟨h.reader, h.writer, h.socketAlive, h.shuttingDown, h.reconnectThread, h.ended, hinert⟩

theorem Closed.step (h : client.Closed) {action : ClientAction} {events : List ClientEvent}
    (hstep : clientMachine client action = some (next, events)) :
    (next.Closed ∧ next.threads = client.threads) ∧ Refuses events := by
  cases action with
  | thread index answer =>
      obtain ⟨pc, out, hpc, hreconnects, rfl, -⟩ := threadStep_eq_some hstep
      exact absurd ⟨pc, hpc, hreconnects.ne_finished⟩ (h.ended index)
  | session move =>
      have hsteps := sessionStep_spec hstep
      generalize hsession : client.session = session at hsteps
      cases hsteps with
      | called packet => exact ⟨⟨h.move trivial, rfl⟩, by simp [Refuses]⟩
      | reads => exact ⟨⟨h.move trivial, rfl⟩, by simp [Refuses]⟩
      | closes => exact ⟨⟨h.move trivial, rfl⟩, by simp [Refuses]⟩
      | shutsDown => exact ⟨⟨h.move trivial, rfl⟩, by simp [Refuses]⟩
      | givesUp hshut => exact ⟨⟨h.move trivial, rfl⟩, by simp [Refuses]⟩
      | @locks packet =>
          -- the flag is up, so the loop of `write_packet` does not get this far
          simp [clientMachine, sessionStep, hsession, h.shuttingDown] at hstep
      | noWriter hwriter => exact ⟨⟨h.move trivial, rfl⟩, by simp [Refuses]⟩
      | writes hwriter hwrites => exact absurd (h.writer.symm.trans hwriter) (by simp)
      | noReader hreader => exact ⟨⟨h.move trivial, rfl⟩, by simp [Refuses]⟩
      | read hreader hreads hnext => exact absurd (h.reader.symm.trans hreader) (by simp)
      | closing hclose => exact ⟨h.closeStep hsession hclose, by simp [Refuses]⟩
      | shutdown hshutdown => exact ⟨h.shutdownStep hsession hshutdown, by simp [Refuses]⟩

end Client

end EternalTerminal
