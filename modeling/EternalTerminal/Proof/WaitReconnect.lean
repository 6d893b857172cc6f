import EternalTerminal.Library.Progress
import EternalTerminal.Proof.Consistency

/-!
# The calls that join the reconnect thread

`close_and_maybe_reconnect` and `shutdown` wait for the reconnect thread, which gives up only when a
flag is up. The wait is no deadlock, and nothing but attempts that fail makes it longer: each step of
the call or of the thread it waits for takes something out of a potential, and a failed attempt puts
some of it back.
-/

namespace EternalTerminal

namespace ReconnectPc

/-- How many steps the thread takes at most until it ends, if no attempt fails from here on, or if
`shutting_down` is set. -/
def stepsLeft (shuttingDown : Bool) : ReconnectPc → Nat
  | .sleeping => if shuttingDown then 3 else 16
  | .loopHead => if shuttingDown then 2 else 15
  | .checkShutdown => if shuttingDown then 1 else 14
  | .connecting => 13
  | .requesting _ => 12
  | .awaitingResponse _ => 11
  | .readingSequence _ => 10
  | .sendingSequence _ _ => 9
  | .awaitingSequence _ => 8
  | .recovering _ _ => 7
  | .sendingCatchup _ _ _ => 6
  | .awaitingCatchup _ _ _ => 5
  | .preparing _ _ _ _ => 4
  | .revivingReader _ _ _ _ => 3
  | .revivingWriter _ _ _ => 2
  | .recovered => 1
  | .rejected => 1
  | .finished => 0

theorem stepsLeft_le (shuttingDown : Bool) (pc : ReconnectPc) : pc.stepsLeft shuttingDown ≤ 16 := by
  cases pc <;> cases shuttingDown <;> simp [stepsLeft]

theorem stepsLeft_of_shuttingDown (pc : ReconnectPc) : pc.stepsLeft true ≤ 13 := by
  cases pc <;> simp [stepsLeft]

end ReconnectPc

namespace ReconnectEvent

/-- The attempt ended in `Err`. -/
def isFailure : ReconnectEvent → Bool
  | .failed _ => true
  | _ => false

/-- What a failed attempt puts back: the way from `sleeping` to where the next one can fail. -/
def refund (event : ReconnectEvent) : Nat := if event.isFailure then 13 else 0

end ReconnectEvent

open Transducer in
/-- What a step takes out of the potential of its thread. -/
theorem stepsLeft_step {shared : Shared} {pc : ReconnectPc} {answer : Answer} {out : ReconnectOutput}
    (h : reconnectStep shared pc answer = some out) :
    out.pc.stepsLeft out.shared.shuttingDown + 1 ≤ pc.stepsLeft shared.shuttingDown
      + if shared.shuttingDown then 0 else refunds ReconnectEvent.refund out.events := by
  cases pc with
  | loopHead =>
      cases answer <;> simp only [reconnectStep, Option.some.injEq, reduceCtorEq] at h
      subst h
      cases shared.shuttingDown <;> cases shared.socketAlive <;>
        simp [ReconnectPc.stepsLeft]
  | checkShutdown =>
      cases answer <;> simp only [reconnectStep, Option.some.injEq, reduceCtorEq] at h
      subst h
      cases shared.shuttingDown <;> simp [ReconnectPc.stepsLeft]
  | sleeping =>
      cases answer <;> simp only [reconnectStep, Option.some.injEq, reduceCtorEq] at h
      subst h
      cases shared.shuttingDown <;> simp [ReconnectPc.stepsLeft]
  | awaitingResponse socket =>
      cases answer <;> simp only [reconnectStep, Option.some.injEq, reduceCtorEq] at h
      · subst h
        cases hshut : shared.shuttingDown <;>
          simp [ReconnectPc.stepsLeft, attemptFails, refunds,
            ReconnectEvent.refund, ReconnectEvent.isFailure, hshut]
      · split at h <;> obtain rfl := Option.some.inj h <;>
          cases hshut : shared.shuttingDown <;>
          simp [ReconnectPc.stepsLeft, attemptFails, refunds,
            ReconnectEvent.refund, ReconnectEvent.isFailure, hshut]
  | recovering socket remoteSeq =>
      cases answer <;> simp only [reconnectStep, reduceCtorEq] at h
      split at h <;> obtain rfl := Option.some.inj h <;>
        cases hshut : shared.shuttingDown <;>
        simp [ReconnectPc.stepsLeft, attemptFails, refunds,
            ReconnectEvent.refund, ReconnectEvent.isFailure, hshut]
  | _ =>
      cases answer <;> simp only [reconnectStep, Option.some.injEq, reduceCtorEq] at h
      all_goals
        subst h
        cases hshut : shared.shuttingDown <;>
          simp [ReconnectPc.stepsLeft, attemptFails, refunds,
            ReconnectEvent.refund, ReconnectEvent.isFailure, hshut]

theorem reconnectStep_enabled (shared : Shared) {pc : ReconnectPc} (h : pc ≠ .finished) :
    ∃ answer out, reconnectStep shared pc answer = some out := by
  cases pc with
  | finished => exact absurd rfl h
  | awaitingResponse socket => exact ⟨.fail (.msg ""), _, rfl⟩
  | awaitingSequence socket => exact ⟨.fail (.msg ""), _, rfl⟩
  | awaitingCatchup socket remoteSeq entries => exact ⟨.fail (.msg ""), _, rfl⟩
  | recovering socket remoteSeq =>
      refine ⟨.done, ?_⟩
      simp only [reconnectStep]
      split <;> exact ⟨_, rfl⟩
  | _ => exact ⟨.done, _, rfl⟩

/-! ### The thread that is waited for -/

namespace SessionPc

/-- The handle that the session thread holds. -/
def handle? : SessionPc → Option Nat
  | .closing (.joining thread) _ => some thread
  | .closing (.storeHandle thread) _ => some thread
  | .shutdown (.joining thread) => some thread
  | _ => none

/-- The thread that may run while the session thread is in one of the two calls. -/
def awaited (stored : Option Nat) : SessionPc → Option Nat
  | .closing .takeHandle _ => stored
  | .shutdown .setFlag => stored
  | .shutdown .takeHandle => stored
  | session => session.handle?

/-- What the session thread takes out of the potential, and a thread that it spawns. -/
def stepsLeft : SessionPc → Nat
  | .closing stage _ =>
    match stage with
    | .takeHandle => 23
    | .joining _ => 22
    | .invalidateReader => 21
    | .invalidateWriter => 20
    | .clearAlive => 19
    | .maybeSpawn => 18
    | .storeHandle _ => 1
  | .shutdown stage =>
    match stage with
    | .setFlag => 6
    | .takeHandle => 5
    | .joining _ => 4
    | .clearReader => 3
    | .clearWriter => 2
    | .clearAlive => 1
  | _ => 0

theorem stepsLeft_le (session : SessionPc) : session.stepsLeft ≤ 23 := by
  cases session with
  | closing stage caller => cases stage <;> simp [stepsLeft]
  | shutdown stage => cases stage <;> simp [stepsLeft]
  | _ => simp [stepsLeft]

end SessionPc

namespace Client

/-- Every handle is that of a thread. -/
structure Handled (client : Client) : Prop where
  stored : ∀ thread, client.reconnectThread = some thread → thread < client.threads.length
  held : ∀ thread, client.session.handle? = some thread → thread < client.threads.length

theorem connected_handled (readerCrypto writerCrypto : CryptoHandler) :
    (connected readerCrypto writerCrypto).Handled := by
  refine ⟨?_, ?_⟩ <;> intro thread h <;> simp [connected, SessionPc.handle?] at h

variable {client next : Client}

theorem handle?_returnTo (caller : Caller) : (returnTo caller).handle? = none := by
  cases caller <;> rfl

theorem handle?_afterWrite (packet : Packet) (state : WriteState) :
    (afterWrite packet state).1.handle? = none := by
  cases state <;> rfl

theorem Handled.keep (h : client.Handled) (hstored : next.reconnectThread = client.reconnectThread)
    (hthreads : next.threads = client.threads) (hsession : next.session.handle? = none) :
    next.Handled := by
  refine ⟨?_, ?_⟩
  · rw [hstored, hthreads]
    exact h.stored
  · intro thread hthread
    rw [hsession] at hthread
    exact absurd hthread (by simp)

theorem closeStep_handled {caller : Caller} {stage : CloseStage} (h : client.Handled)
    (hsession : client.session = .closing stage caller)
    (hstep : client.closeStep caller stage = some next) : next.Handled := by
  cases stage with
  | takeHandle =>
      simp only [closeStep] at hstep
      split at hstep <;> obtain rfl := Option.some.inj hstep
      · next thread hthread =>
          refine ⟨by simp, fun thread' hthread' => ?_⟩
          obtain rfl := Option.some.inj hthread'
          exact h.stored _ hthread
      · exact h.keep rfl rfl rfl
  | joining thread =>
      simp only [closeStep] at hstep
      split_ifs at hstep
      obtain rfl := Option.some.inj hstep
      exact h.keep rfl rfl rfl
  | maybeSpawn =>
      simp only [closeStep] at hstep
      split_ifs at hstep <;> obtain rfl := Option.some.inj hstep
      · exact h.keep rfl rfl (handle?_returnTo caller)
      · refine ⟨fun thread hthread => ?_, fun thread hthread => ?_⟩
        · exact (h.stored thread hthread).trans_le (by simp)
        · obtain rfl := Option.some.inj hthread
          simp
  | storeHandle thread =>
      obtain rfl := Option.some.inj hstep
      refine ⟨fun thread' hthread => ?_, fun thread' hthread => ?_⟩
      · obtain rfl := Option.some.inj hthread
        exact h.held _ (by rw [hsession]; rfl)
      · rw [handle?_returnTo] at hthread
        exact absurd hthread (by simp)
  | _ =>
      obtain rfl := Option.some.inj hstep
      exact h.keep rfl rfl rfl

theorem shutdownStep_handled {stage : ShutdownStage} (h : client.Handled)
    (hstep : client.shutdownStep stage = some next) : next.Handled := by
  cases stage with
  | takeHandle =>
      simp only [shutdownStep] at hstep
      split at hstep <;> obtain rfl := Option.some.inj hstep
      · next thread hthread =>
          refine ⟨by simp, fun thread' hthread' => ?_⟩
          obtain rfl := Option.some.inj hthread'
          exact h.stored _ hthread
      · exact h.keep rfl rfl rfl
  | joining thread =>
      simp only [shutdownStep] at hstep
      split_ifs at hstep
      obtain rfl := Option.some.inj hstep
      exact h.keep rfl rfl rfl
  | _ =>
      obtain rfl := Option.some.inj hstep
      exact h.keep rfl rfl rfl

theorem clientMachine_handled {action : ClientAction} {events : List ClientEvent} (h : client.Handled)
    (hstep : clientMachine client action = some (next, events)) : next.Handled := by
  cases action with
  | session move =>
      have hsteps := sessionStep_spec hstep
      generalize hsession : client.session = session at hsteps
      cases hsteps with
      | writes hwriter hwrites => exact h.keep rfl rfl (handle?_afterWrite _ _)
      | read hreader hreads hnext =>
          refine h.keep rfl rfl ?_
          rcases hnext with rfl | rfl <;> rfl
      | closing hclose => exact closeStep_handled h hsession hclose
      | shutdown hshutdown => exact shutdownStep_handled h hshutdown
      | _ => exact h.keep rfl rfl rfl
  | thread index answer =>
      obtain ⟨pc, out, hpc, hreconnects, rfl, -⟩ := threadStep_eq_some hstep
      refine ⟨fun thread hthread => ?_, fun thread hthread => ?_⟩
      · exact (h.stored thread hthread).trans_le (by simp [stepped])
      · exact (h.held thread hthread).trans_le (by simp [stepped])

/-! ### The potential -/

/-- What the thread with this handle takes out of the potential. -/
def threadStepsLeft (shuttingDown : Bool) (threads : List ReconnectPc) (handle : Option Nat) : Nat :=
  match handle.bind fun thread => threads[thread]? with
  | some pc => pc.stepsLeft shuttingDown
  | none => 0

def potential (client : Client) : Nat :=
  client.session.stepsLeft + threadStepsLeft client.shared.shuttingDown client.threads
    (client.session.awaited client.reconnectThread)

/-- The session thread knows which thread may run. -/
theorem Consistent.owned_awaited (h : client.Consistent) (hinside : ¬ client.session.Outside) :
    Owned client.shared client.threads (client.session.awaited client.reconnectThread) := by
  unfold Consistent at h
  generalize client.session = session at h hinside
  cases session with
  | closing stage caller =>
      cases stage with
      | takeHandle => exact h
      | joining thread => exact h.2
      | invalidateReader => exact h.2
      | invalidateWriter => exact h.2
      | clearAlive => exact h.2
      | maybeSpawn => exact h.2.1
      | storeHandle thread => exact h.2.1
  | shutdown stage =>
      cases stage with
      | setFlag => exact h
      | takeHandle => exact h.1
      | joining thread => exact h.2.1
      | clearReader => exact h.2.1
      | clearWriter => exact h.2.1
      | clearAlive => exact h.2.1
  | _ => exact absurd trivial hinside

@[simp] theorem threadStepsLeft_none (shuttingDown : Bool) (threads : List ReconnectPc) :
    threadStepsLeft shuttingDown threads none = 0 := rfl

theorem threadStepsLeft_le (shuttingDown : Bool) (threads : List ReconnectPc) (handle : Option Nat) :
    threadStepsLeft shuttingDown threads handle ≤ 16 := by
  unfold threadStepsLeft
  split
  · exact ReconnectPc.stepsLeft_le _ _
  · exact Nat.zero_le _

theorem threadStepsLeft_le_of_shuttingDown (threads : List ReconnectPc) (handle : Option Nat) :
    threadStepsLeft true threads handle ≤ 13 := by
  unfold threadStepsLeft
  split
  · exact ReconnectPc.stepsLeft_of_shuttingDown _
  · exact Nat.zero_le _

/-- Setting the flag makes no thread's way longer. -/
theorem threadStepsLeft_shuttingDown (shuttingDown : Bool) (threads : List ReconnectPc)
    (handle : Option Nat) :
    threadStepsLeft true threads handle ≤ threadStepsLeft shuttingDown threads handle := by
  unfold threadStepsLeft
  split
  · next pc hpc => cases shuttingDown <;> cases pc <;> simp [ReconnectPc.stepsLeft]
  · exact le_rfl

theorem potential_returnTo {caller : Caller} (h : client.session = returnTo caller) :
    client.potential = 0 := by
  unfold potential
  rw [h]
  cases caller <;> rfl

theorem closeStep_potential {caller : Caller} {stage : CloseStage}
    (hsession : client.session = .closing stage caller)
    (hstep : client.closeStep caller stage = some next) : next.potential + 1 ≤ client.potential := by
  have hclient : client.potential = (SessionPc.closing stage caller).stepsLeft
      + threadStepsLeft client.shared.shuttingDown client.threads
          ((SessionPc.closing stage caller).awaited client.reconnectThread) := by
    rw [potential, hsession]
  cases stage with
  | takeHandle =>
      simp only [closeStep] at hstep
      split at hstep <;> obtain rfl := Option.some.inj hstep <;> rw [hclient]
      · next thread hthread =>
          simp only [potential, SessionPc.stepsLeft, SessionPc.awaited, SessionPc.handle?, hthread]
          omega
      · next hthread =>
          simp [potential, SessionPc.stepsLeft, SessionPc.awaited, SessionPc.handle?, hthread]
  | joining thread =>
      simp only [closeStep] at hstep
      split_ifs at hstep
      obtain rfl := Option.some.inj hstep
      rw [hclient]
      simp [potential, SessionPc.stepsLeft, SessionPc.awaited, SessionPc.handle?]
  | maybeSpawn =>
      simp only [closeStep] at hstep
      split_ifs at hstep <;> obtain rfl := Option.some.inj hstep <;> rw [hclient]
      · rw [potential_returnTo rfl]
        simp only [SessionPc.stepsLeft]
        omega
      · have hspawned := threadStepsLeft_le client.shared.shuttingDown
          (client.threads ++ [.loopHead]) (some client.threads.length)
        simp only [potential, SessionPc.stepsLeft, SessionPc.awaited, SessionPc.handle?]
        omega
  | storeHandle thread =>
      obtain rfl := Option.some.inj hstep
      rw [potential_returnTo rfl, hclient]
      simp [SessionPc.stepsLeft]
  | _ =>
      obtain rfl := Option.some.inj hstep
      rw [hclient]
      simp [potential, SessionPc.stepsLeft, SessionPc.awaited, SessionPc.handle?]

theorem shutdownStep_potential {stage : ShutdownStage} (hsession : client.session = .shutdown stage)
    (hstep : client.shutdownStep stage = some next) : next.potential + 1 ≤ client.potential := by
  have hclient : client.potential = (SessionPc.shutdown stage).stepsLeft
      + threadStepsLeft client.shared.shuttingDown client.threads
          ((SessionPc.shutdown stage).awaited client.reconnectThread) := by
    rw [potential, hsession]
  cases stage with
  | setFlag =>
      obtain rfl := Option.some.inj hstep
      rw [hclient]
      have hflag := threadStepsLeft_shuttingDown client.shared.shuttingDown client.threads
        client.reconnectThread
      simp only [potential, SessionPc.stepsLeft, SessionPc.awaited]
      omega
  | takeHandle =>
      simp only [shutdownStep] at hstep
      split at hstep <;> obtain rfl := Option.some.inj hstep <;> rw [hclient]
      · next thread hthread =>
          simp only [potential, SessionPc.stepsLeft, SessionPc.awaited, SessionPc.handle?, hthread]
          omega
      · next hthread =>
          simp [potential, SessionPc.stepsLeft, SessionPc.awaited, SessionPc.handle?, hthread]
  | joining thread =>
      simp only [shutdownStep] at hstep
      split_ifs at hstep
      obtain rfl := Option.some.inj hstep
      rw [hclient]
      simp [potential, SessionPc.stepsLeft, SessionPc.awaited, SessionPc.handle?]
  | _ =>
      obtain rfl := Option.some.inj hstep
      rw [hclient]
      simp [potential, SessionPc.stepsLeft, SessionPc.awaited, SessionPc.handle?]

end Client

/-! ### Runs inside the two calls -/

namespace ClientEvent

/-- A reconnect attempt ended in `Err`. -/
def isFailure : ClientEvent → Bool
  | .reconnect _ (.failed _) => true
  | _ => false

end ClientEvent

open Transducer

/-- A failed attempt puts back the way from `sleeping` to where the next one can fail. -/
def ClientEvent.refund (event : ClientEvent) : Nat := if event.isFailure then 13 else 0

theorem refunds_reconnect (i : Nat) (events : List ReconnectEvent) :
    refunds ClientEvent.refund (events.map (.reconnect i)) = refunds ReconnectEvent.refund events := by
  rw [refunds_map]
  congr 1
  funext event
  cases event <;> rfl

variable {client next : Client}

theorem sessionStep_potential {move : SessionMove} {events : List ClientEvent}
    (hinside : ¬ client.session.Outside)
    (hstep : clientMachine client (.session move) = some (next, events)) :
    next.potential + 1 ≤ client.potential := by
  have hsteps := Client.sessionStep_spec hstep
  generalize hsession : client.session = session at hinside hsteps
  cases hsteps with
  | closing hclose => exact Client.closeStep_potential hsession hclose
  | shutdown hshutdown => exact Client.shutdownStep_potential hsession hshutdown
  | _ => exact absurd trivial hinside

theorem threadStep_potential {index : Nat} {answer : Answer} {events : List ClientEvent}
    (h : client.Consistent) (hinside : ¬ client.session.Outside)
    (hstep : clientMachine client (.thread index answer) = some (next, events)) :
    next.potential + 1 ≤ client.potential
      + if client.shared.shuttingDown then 0 else refunds ClientEvent.refund events := by
  have howned := h.owned_awaited hinside
  obtain ⟨pc, out, hpc, hout, rfl, rfl⟩ : ∃ pc out, client.threads[index]? = some pc
      ∧ reconnectStep client.shared pc answer = some out ∧ next = client.stepped index out
      ∧ events = out.events.map (.reconnect index) := by
    simp only [clientMachine, Client.threadStep] at hstep
    split at hstep
    · cases hstep
    · next pc hpc =>
        simp only [Option.map_eq_some_iff, Prod.mk.injEq] at hstep
        obtain ⟨out, hout, rfl, rfl⟩ := hstep
        exact ⟨pc, out, hpc, hout, rfl, rfl⟩
  have hrunning : Running client.threads index := ⟨pc, hpc, (reconnectStep_spec hout).ne_finished⟩
  have hlt : index < client.threads.length := (List.getElem?_eq_some_iff.mp hpc).1
  have hawaited := howned.only index hrunning
  have hpaid := stepsLeft_step hout
  simp only [Client.potential, Client.stepped, hawaited, Client.threadStepsLeft, Option.bind_some, hpc,
    List.getElem?_set_self hlt, refunds_reconnect]
  omega

/-- A thread that runs is never stuck. -/
theorem thread_enabled {i : Nat} (h : Running client.threads i) :
    ∃ answer next out, clientMachine client (.thread i answer) = some (next, out) := by
  obtain ⟨pc, hpc, hne⟩ := h
  obtain ⟨answer, out, hout⟩ := reconnectStep_enabled client.shared hne
  refine ⟨answer, client.stepped i out, out.events.map (.reconnect i), ?_⟩
  simp only [clientMachine, Client.threadStep, hpc, hout, Option.map_some]

theorem join_enabled {thread : Nat} (h : client.Handled)
    (hheld : client.session.handle? = some thread)
    (hrunning : client.threads[thread]? ≠ some .finished) : clientMachine.Enabled client := by
  have hlt := h.held thread hheld
  have hpc : client.threads[thread]? = some client.threads[thread] := List.getElem?_eq_getElem hlt
  obtain ⟨answer, hstep⟩ := thread_enabled ⟨_, hpc, fun hfinished => hrunning (hfinished ▸ hpc)⟩
  exact ⟨.thread thread answer, hstep⟩

theorem enabled_of_step {after : Client}
    (h : (∃ stage caller, client.session = .closing stage caller
        ∧ client.closeStep caller stage = some after)
      ∨ ∃ stage, client.session = .shutdown stage ∧ client.shutdownStep stage = some after) :
    clientMachine.Enabled client := by
  refine ⟨.session .step, after, [], ?_⟩
  rcases h with ⟨stage, caller, hsession, hstep⟩ | ⟨stage, hsession, hstep⟩
  · simp only [clientMachine, hsession, Client.sessionStep, hstep, Option.map_some]
  · simp only [clientMachine, hsession, Client.sessionStep, hstep, Option.map_some]

theorem enabled_inside (h : client.Handled) (hinside : ¬ client.session.Outside) :
    clientMachine.Enabled client := by
  cases hsession : client.session with
  | closing stage caller =>
      have hstep : ∀ after, client.closeStep caller stage = some after →
          clientMachine.Enabled client :=
        fun after hafter => enabled_of_step (.inl ⟨stage, caller, hsession, hafter⟩)
      cases stage with
      | takeHandle =>
          cases hhandle : client.reconnectThread with
          | none => exact hstep _ (by simp only [Client.closeStep, hhandle]; rfl)
          | some thread => exact hstep _ (by simp only [Client.closeStep, hhandle]; rfl)
      | joining thread =>
          by_cases hfinished : client.threads[thread]? = some .finished
          · exact hstep _ (if_pos hfinished)
          · exact join_enabled h (by rw [hsession]; rfl) hfinished
      | maybeSpawn =>
          by_cases hshut : client.shared.shuttingDown = true
          · exact hstep _ (if_pos hshut)
          · exact hstep _ (if_neg hshut)
      | _ => exact hstep _ rfl
  | shutdown stage =>
      have hstep : ∀ after, client.shutdownStep stage = some after → clientMachine.Enabled client :=
        fun after hafter => enabled_of_step (.inr ⟨stage, hsession, hafter⟩)
      cases stage with
      | takeHandle =>
          cases hhandle : client.reconnectThread with
          | none => exact hstep _ (by simp only [Client.shutdownStep, hhandle]; rfl)
          | some thread => exact hstep _ (by simp only [Client.shutdownStep, hhandle]; rfl)
      | joining thread =>
          by_cases hfinished : client.threads[thread]? = some .finished
          · exact hstep _ (if_pos hfinished)
          · exact join_enabled h (by rw [hsession]; rfl) hfinished
      | _ => exact hstep _ rfl
  | _ => exact absurd (hsession ▸ trivial) hinside

theorem potential_le (client : Client) : client.potential ≤ 39 := by
  have hsession := client.session.stepsLeft_le
  have hthread := Client.threadStepsLeft_le client.shared.shuttingDown client.threads
    (client.session.awaited client.reconnectThread)
  unfold Client.potential
  omega

theorem potential_le_of_shuttingDown (hshut : client.shared.shuttingDown = true) :
    client.potential ≤ 36 := by
  have hsession := client.session.stepsLeft_le
  have hthread := Client.threadStepsLeft_le_of_shuttingDown client.threads
    (client.session.awaited client.reconnectThread)
  unfold Client.potential
  rw [hshut]
  omega

theorem inside_step {action : ClientAction} {events : List ClientEvent} (h : client.Consistent)
    (hinside : ¬ client.session.Outside)
    (hstep : clientMachine client action = some (next, events)) :
    next.potential + 1 ≤ client.potential
      + if client.shared.shuttingDown then 0 else refunds ClientEvent.refund events := by
  cases action with
  | session move =>
      have hpaid := sessionStep_potential hinside hstep
      omega
  | thread index answer => exact threadStep_potential h hinside hstep

theorem closeStep_shuttingDown {caller : Caller} {stage : CloseStage}
    (hstep : client.closeStep caller stage = some next) :
    next.shared.shuttingDown = client.shared.shuttingDown := by
  cases stage <;> simp only [Client.closeStep] at hstep <;> try split at hstep
  all_goals first
    | obtain rfl := Option.some.inj hstep
      rfl
    | cases hstep

theorem shutdownStep_shuttingDown {stage : ShutdownStage}
    (hstep : client.shutdownStep stage = some next) :
    next.shared.shuttingDown = client.shared.shuttingDown ∨ next.shared.shuttingDown = true := by
  cases stage <;> simp only [Client.shutdownStep] at hstep <;> try split at hstep
  all_goals first
    | obtain rfl := Option.some.inj hstep
      first
        | exact .inl rfl
        | exact .inr rfl
    | cases hstep

theorem shuttingDown_step {action : ClientAction} {events : List ClientEvent}
    (hshut : client.shared.shuttingDown = true)
    (hstep : clientMachine client action = some (next, events)) : next.shared.shuttingDown = true := by
  cases action with
  | session move =>
      have hsteps := Client.sessionStep_spec hstep
      generalize client.session = session at hsteps
      cases hsteps with
      | closing hclose => exact (closeStep_shuttingDown hclose).trans hshut
      | shutdown hshutdown =>
          rcases shutdownStep_shuttingDown hshutdown with hsame | hset
          · exact hsame.trans hshut
          · exact hset
      | _ => exact hshut
  | thread index answer =>
      obtain ⟨pc, out, hpc, hreconnects, rfl, -⟩ := Client.threadStep_eq_some hstep
      exact hreconnects.shuttingDown hshut

theorem connected_run_consistent {readerCrypto writerCrypto : CryptoHandler}
    {actions : List ClientAction} {events : List ClientEvent}
    (h : clientMachine.run (Client.connected readerCrypto writerCrypto) actions =
      some (client, events)) : client.Consistent :=
  clientMachine.run_invariant_state clientMachine_consistent (connected_consistent _ _) h

theorem connected_run_handled {readerCrypto writerCrypto : CryptoHandler}
    {actions : List ClientAction} {events : List ClientEvent}
    (h : clientMachine.run (Client.connected readerCrypto writerCrypto) actions =
      some (client, events)) : client.Handled :=
  clientMachine.run_invariant_state Client.clientMachine_handled (Client.connected_handled _ _) h

/-- **Joining ends.** In any run after a successful `connect`, a call of `close_and_maybe_reconnect` or
of `shutdown` takes at most 39 steps of all threads together and 13 more for each reconnect attempt that
fails meanwhile; it is not held up by failures at all once `shutting_down` is set. As long as the call
goes on something can step, and so can every thread that has not ended. -/
theorem joining_bounded {readerCrypto writerCrypto : CryptoHandler}
    {earlier actions : List ClientAction} {past events : List ClientEvent}
    (hreach : clientMachine.run (Client.connected readerCrypto writerCrypto) earlier =
      some (client, past))
    (hrun : clientMachine.run client actions = some (next, events))
    (hinside : clientMachine.Along (fun during _ => ¬ during.session.Outside) client actions) :
    actions.length ≤ 39 + 13 * events.countP ClientEvent.isFailure
      ∧ (client.shared.shuttingDown = true → actions.length ≤ 36)
      ∧ (¬ next.session.Outside → clientMachine.Enabled next)
      ∧ ∀ i, Running next.threads i →
          ∃ answer after out, clientMachine next (.thread i answer) = some (after, out) := by
  have hconsistent := connected_run_consistent hreach
  have hnext : next.Handled := clientMachine.run_invariant_state Client.clientMachine_handled
    (connected_run_handled hreach) hrun
  refine ⟨?_, fun hshut => ?_, enabled_inside hnext, fun i hrunning => thread_enabled hrunning⟩
  · have hpaid := (clientMachine.length_le_of_potential ClientEvent.refund
      (I := Client.Consistent) (fun h hin hstep => ⟨clientMachine_consistent h hstep,
        (inside_step h hin hstep).trans (by split <;> omega)⟩) hconsistent hinside hrun).2
    have hfailures : refunds ClientEvent.refund events = 13 * events.countP ClientEvent.isFailure :=
      refunds_ite ClientEvent.isFailure 13 events
    have hstart := potential_le client
    omega
  · have hpaid := (clientMachine.length_le_of_potential (fun _ => 0)
      (I := fun during => during.Consistent ∧ during.shared.shuttingDown = true)
      (fun h hin hstep => by
        refine ⟨⟨clientMachine_consistent h.1 hstep, shuttingDown_step h.2 hstep⟩, ?_⟩
        simpa [h.2, refunds_zero] using inside_step h.1 hin hstep)
      ⟨hconsistent, hshut⟩ hinside hrun).2
    rw [refunds_zero] at hpaid
    have hstart := potential_le_of_shuttingDown hshut
    omega

/-- A close that joins a running thread: one attempt of it fails, and the next ends it. -/
theorem joining_bounded_at_close :
    let crypto : CryptoHandler := ⟨tagCipher, .start clientServerNonceMsb⟩
    let earlier : List ClientAction :=
      .session .closeAndMaybeReconnect :: List.replicate 6 (.session .step)
        ++ [.thread 0 .done, .thread 0 .done, .session .closeAndMaybeReconnect]
    let actions : List ClientAction :=
      [.session .step, .thread 0 (.fail (.msg "connection refused")), .thread 0 .done, .thread 0 .done,
        .thread 0 .done, .thread 0 .done, .thread 0 .done,
        .thread 0 (.response { status := some .invalidKey, error := none }), .thread 0 .done,
        .session .step]
    ∃ client past next events,
      clientMachine.run (Client.connected crypto crypto) earlier = some (client, past)
        ∧ client.threads = [.connecting]
        ∧ clientMachine.run client actions = some (next, events)
        ∧ next.threads = [.finished] ∧ events.countP ClientEvent.isFailure = 1
        ∧ actions.length ≤ 39 + 13 * events.countP ClientEvent.isFailure
        ∧ clientMachine.Enabled next := by
  intro crypto earlier actions
  have hjoining : (clientMachine.run (Client.connected crypto crypto) earlier).map (fun out =>
      (out.1.threads, decide (clientMachine.Along (fun during _ => ¬ during.session.Outside) out.1
        actions))) = some ([.connecting], true) := by
    decide +kernel
  have hjoined : ((clientMachine.run (Client.connected crypto crypto) earlier).bind fun out =>
      clientMachine.run out.1 actions).map (fun out =>
        (out.1.threads, out.2.countP ClientEvent.isFailure, decide out.1.session.Outside)) =
        some ([.finished], 1, false) := by
    decide +kernel
  obtain ⟨⟨client, past⟩, hreach, hstart⟩ := Option.map_eq_some_iff.mp hjoining
  obtain ⟨⟨next, events⟩, hrun, hend⟩ := Option.map_eq_some_iff.mp hjoined
  rw [hreach, Option.bind_some] at hrun
  simp only [Prod.mk.injEq, decide_eq_true_eq, decide_eq_false_iff_not] at hstart hend
  obtain ⟨hrunning, hinside⟩ := hstart
  obtain ⟨hfinished, hfailed, hnext⟩ := hend
  obtain ⟨hbound, -, henabled, -⟩ := joining_bounded hreach hrun hinside
  exact ⟨client, past, next, events, hreach, hrunning, hrun, hfinished, hfailed, hbound,
    henabled hnext⟩

end EternalTerminal
