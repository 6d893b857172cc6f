import EternalTerminal.Proof.Consistency

/-!
# The reader without a socket

`close_and_maybe_reconnect` takes the reader's socket before it spawns a thread, and only a thread that
has caught up gives the reader another. So a thread that is still trying, and a client that is shutting
down, find the reader without a socket.
-/

namespace EternalTerminal

namespace CloseStage

/-- `close_and_maybe_reconnect` has taken the reader's socket and not yet spawned. -/
def Severing : CloseStage → Prop
  | .invalidateWriter => True
  | .clearAlive => True
  | .maybeSpawn => True
  | _ => False

end CloseStage

namespace Client

/-- The reader has no socket from the moment it is cut until a reconnect thread revives it, and for
good once the client is shutting down. -/
structure Severed (client : Client) : Prop where
  trying : ∀ (i : Nat) (pc : ReconnectPc), client.threads[i]? = some pc → pc.Trying →
    client.shared.readerSocket = none
  closing : ∀ stage caller, client.session = .closing stage caller → stage.Severing →
    client.shared.readerSocket = none
  shut : client.shared.shuttingDown = true → client.shared.readerSocket = none
    ∧ client.shared.socketAlive = false ∧ ∀ i, ¬ Running client.threads i
  noShutdown : ∀ stage, client.session ≠ .shutdown stage

theorem connected_severed (readerCrypto writerCrypto : CryptoHandler) :
    (connected readerCrypto writerCrypto).Severed := by
  refine ⟨?_, ?_, ?_, ?_⟩
  · intro i pc hpc
    simp [connected] at hpc
  · intro stage caller hsession
    simp [connected] at hsession
  · intro hshut
    simp [connected] at hshut
  · intro stage hsession
    simp [connected] at hsession

variable {client next : Client}

/-- Places of the session thread at which the reader need not be cut. -/
def Unsevered : SessionPc → Prop
  | .closing stage _ => ¬ stage.Severing
  | .shutdown _ => False
  | _ => True

theorem unsevered_returnTo (caller : Caller) : Unsevered (returnTo caller) := by
  cases caller <;> exact trivial

theorem unsevered_afterWrite (packet : Packet) (state : WriteState) :
    Unsevered (afterWrite packet state).1 := by
  cases state with
  | wroteWithFailure => exact id
  | _ => exact trivial

theorem Severed.keep (h : client.Severed)
    (hsocket : next.shared.readerSocket = client.shared.readerSocket)
    (halive : next.shared.socketAlive = client.shared.socketAlive)
    (hshut : next.shared.shuttingDown = client.shared.shuttingDown)
    (hthreads : next.threads = client.threads) (hsession : Unsevered next.session) :
    next.Severed := by
  refine ⟨?_, ?_, ?_, ?_⟩
  · rw [hsocket, hthreads]
    exact h.trying
  · intro stage caller hclosing hsevering
    rw [hclosing] at hsession
    exact absurd hsevering hsession
  · rw [hsocket, halive, hshut, hthreads]
    exact h.shut
  · intro stage hshutdown
    rw [hshutdown] at hsession
    exact hsession

theorem Severed.of_cut (h : client.Severed) (hcut : next.shared.readerSocket = none)
    (hshut : next.shared.shuttingDown = true → client.shared.shuttingDown = true
      ∧ (client.shared.socketAlive = false → next.shared.socketAlive = false)
      ∧ next.threads = client.threads)
    (hsession : ∀ stage, next.session ≠ .shutdown stage) : next.Severed := by
  refine ⟨fun _ _ _ _ => hcut, fun _ _ _ _ => hcut, fun hnext => ?_, hsession⟩
  obtain ⟨hclient, halive, hthreads⟩ := hshut hnext
  obtain ⟨-, hdead, hended⟩ := h.shut hclient
  exact ⟨hcut, halive hdead, hthreads ▸ hended⟩

theorem closeStep_severed {caller : Caller} {stage : CloseStage} (h : client.Severed)
    (hsession : client.session = .closing stage caller)
    (hstep : client.closeStep caller stage = some next) : next.Severed := by
  cases stage with
  | takeHandle =>
      simp only [closeStep] at hstep
      split at hstep <;> obtain rfl := Option.some.inj hstep
      · exact h.keep rfl rfl rfl rfl id
      · exact h.keep rfl rfl rfl rfl id
  | joining thread =>
      simp only [closeStep] at hstep
      split_ifs at hstep
      obtain rfl := Option.some.inj hstep
      exact h.keep rfl rfl rfl rfl id
  | invalidateReader =>
      obtain rfl := Option.some.inj hstep
      refine h.of_cut ?_ (fun hshut => ⟨hshut, id, rfl⟩) (by simp)
      simp only [Shared.readerSocket]
      cases client.shared.reader <;> rfl
  | invalidateWriter =>
      obtain rfl := Option.some.inj hstep
      exact h.of_cut (h.closing _ _ hsession trivial) (fun hshut => ⟨hshut, id, rfl⟩) (by simp)
  | clearAlive =>
      obtain rfl := Option.some.inj hstep
      exact h.of_cut (h.closing _ _ hsession trivial) (fun hshut => ⟨hshut, fun _ => rfl, rfl⟩)
        (by simp)
  | maybeSpawn =>
      simp only [closeStep] at hstep
      split_ifs at hstep with hshut <;> obtain rfl := Option.some.inj hstep
      · exact h.keep rfl rfl rfl rfl (unsevered_returnTo caller)
      · exact h.of_cut (h.closing _ _ hsession trivial) (fun hshut' => absurd hshut' hshut) (by simp)
  | storeHandle thread =>
      obtain rfl := Option.some.inj hstep
      exact h.keep rfl rfl rfl rfl (unsevered_returnTo caller)

theorem sessionSteps_severed {session : SessionPc} {move : SessionMove} {events : List ClientEvent}
    (h : client.Severed) (hsession : client.session = session) (hmove : move ≠ .shutdown)
    (hstep : SessionSteps client session move next events) : next.Severed := by
  cases hstep with
  | shutsDown => exact absurd rfl hmove
  | writes hwriter hwrites => exact h.keep rfl rfl rfl rfl (unsevered_afterWrite _ _)
  | read hreader hreads hnext =>
      refine h.keep ?_ rfl rfl rfl ?_
      · simp only [Shared.readerSocket, hreader, Option.bind_some]
        exact hreads.socket_eq
      · rcases hnext with rfl | rfl
        · exact trivial
        · exact id
  | closing hclose => exact closeStep_severed h hsession hclose
  | shutdown hshutdown => exact absurd hsession (h.noShutdown _)
  | closes => exact h.keep rfl rfl rfl rfl id
  | _ => exact h.keep rfl rfl rfl rfl trivial

/-- No reconnect thread runs while `close_and_maybe_reconnect` is severing. -/
theorem Consistent.not_running_severing (h : client.Consistent) {stage : CloseStage} {caller : Caller}
    (hsession : client.session = .closing stage caller) (hsevering : stage.Severing) (i : Nat) :
    ¬ Running client.threads i := by
  unfold Consistent at h
  rw [hsession] at h
  cases stage with
  | invalidateWriter => exact h.2.not_running i
  | clearAlive => exact h.2.not_running i
  | maybeSpawn => exact h.2.1.not_running i
  | _ => exact absurd hsevering id

theorem trying_of_step {shared : Shared} {pc : ReconnectPc} {out : ReconnectOutput}
    (h : Reconnects shared pc out) (htrying : out.pc.Trying) :
    pc.Trying ∧ out.shared.readerSocket = shared.readerSocket := by
  cases h with
  | leaves hpc hflag => exact absurd rfl htrying.1
  | fails e hpc => exact ⟨hpc, rfl⟩
  | moves hpc hpc' hsocket hsent hheld => exact ⟨hpc, rfl⟩
  | rejects hpc => exact ⟨hpc, rfl⟩
  | revivesReader => exact absurd trivial htrying.2.2
  | revivesWriter => exact absurd rfl htrying.2.1
  | succeeds => exact absurd rfl htrying.1
  | ends => exact absurd rfl htrying.1
  | _ => exact ⟨⟨nofun, nofun, id⟩, rfl⟩

theorem stepped_severed {index : Nat} {pc : ReconnectPc} {out : ReconnectOutput}
    (h : client.Severed) (hconsistent : client.Consistent)
    (hpc : client.threads[index]? = some pc) (hstep : Reconnects client.shared pc out) :
    (client.stepped index out).Severed := by
  obtain ⟨handle, howned⟩ := hconsistent.owned
  have hrunning : Running client.threads index := ⟨pc, hpc, hstep.ne_finished⟩
  have hopen : client.shared.shuttingDown = false := by
    by_contra hshut
    exact (h.shut (by simpa using hshut)).2.2 index hrunning
  refine ⟨?_, ?_, ?_, h.noShutdown⟩
  · intro j pc' hj htrying
    obtain ⟨rfl, -⟩ := howned.running_step hpc hstep ⟨pc', hj, htrying.1⟩
    have hlt : j < client.threads.length := (List.getElem?_eq_some_iff.mp hpc).1
    simp only [stepped, List.getElem?_set_self hlt, Option.some.injEq] at hj
    subst hj
    obtain ⟨hbefore, hsocket⟩ := trying_of_step hstep htrying
    exact hsocket.trans (h.trying j pc hpc hbefore)
  · intro stage caller hsession hsevering
    exact absurd hrunning (hconsistent.not_running_severing hsession hsevering index)
  · intro hshut
    cases hstep with
    | ends =>
        refine ⟨h.trying index _ hpc ⟨nofun, nofun, id⟩, howned.dead index hrunning, fun j hj => ?_⟩
        exact (howned.running_step hpc .ends hj).2 rfl
    | _ => exact absurd hshut (by simp [stepped, attemptFails, hopen])

/-- Only `shutdown` itself is left out: `run_session` never calls it. -/
theorem clientMachine_severed {action : ClientAction} {events : List ClientEvent} (h : client.Severed)
    (hconsistent : client.Consistent) (haction : action ≠ .session .shutdown)
    (hstep : clientMachine client action = some (next, events)) : next.Severed := by
  cases action with
  | session move =>
      exact sessionSteps_severed h rfl (fun hmove => haction (hmove ▸ rfl)) (sessionStep_spec hstep)
  | thread index answer =>
      obtain ⟨pc, out, hpc, hreconnects, rfl, -⟩ := threadStep_eq_some hstep
      exact stepped_severed h hconsistent hpc hreconnects

end Client

end EternalTerminal
