import EternalTerminal.Program
import EternalTerminal.Proof.LiveLog
import EternalTerminal.Proof.Shutdown
import EternalTerminal.Proof.Startup

/-!
# The program comes to an end, and leaves nothing behind

Whatever happens to its session, the program is never stuck: not in a call that waits for a reconnect
thread, and not on its way out. Once the session is over it ends after a bounded number of steps, but for
attempts that go on failing before the flag is up, and then no thread is left and no socket is held.
-/

namespace EternalTerminal

/-! ### A session is never stuck -/

namespace RunSession

theorem accepts_callAnswer (memory : Memory) {s : RunSession} {call : SessionMove}
    (hcall : s.connectionCall = some call) (client : Client) (move : SessionMove)
    (events : List ClientEvent) :
    (runMachine memory s (client.callAnswer call move events)).isSome := by
  obtain ⟨opts, pc, clock, deadline, waiting, ti⟩ := s
  cases pc <;> simp only [connectionCall, reduceCtorEq, Option.some.injEq] at hcall <;> subst hcall
  case awaitingResponse => rfl
  case draining coalesced =>
    simp only [Client.callAnswer]
    cases client.readResult move <;> rfl
  all_goals rfl

theorem accepts_own (memory : Memory) {s : RunSession} (hcall : s.connectionCall = none)
    (hover : ¬ s.Over) (client : Client) :
    ∃ answer, client.Shows answer = true ∧ (runMachine memory s answer).isSome := by
  obtain ⟨opts, pc, clock, deadline, waiting, ti⟩ := s
  have htick (next : RunSession) :
      (tick ⟨opts, pc, clock, deadline, waiting, ti⟩ clock next).isSome := by
    rw [tick, if_pos le_rfl]
    rfl
  have hflag : client.Shows (.shuttingDown client.shared.shuttingDown) = true := beq_self_eq_true _
  have hsocket : client.Shows (.hasSocket client.shared.socketAlive) = true := beq_self_eq_true _
  cases pc <;> simp only [connectionCall, reduceCtorEq] at hcall
  case openingConsole => exact ⟨.opened (.ok ()), rfl, rfl⟩
  case loopHead =>
    refine ⟨_, hflag, ?_⟩
    cases client.shared.shuttingDown <;> rfl
  case checkingFlag => exact ⟨.shutdown false, rfl, rfl⟩
  case checkingSocket =>
    refine ⟨_, hsocket, ?_⟩
    cases client.shared.socketAlive <;> rfl
  case showing coalesced => exact ⟨.shown (.ok ()), rfl, rfl⟩
  case polling => exact ⟨.input (.ok none), rfl, rfl⟩
  case sizing =>
    refine ⟨.size ti, rfl, ?_⟩
    simp [runMachine, runStep]
  case pausing => exact ⟨_, hsocket, rfl⟩
  case returned result => exact absurd trivial hover
  case crashed => exact absurd trivial hover
  all_goals exact ⟨.now clock, rfl, htick _⟩

end RunSession

namespace Client

variable {client : Client}

/-- A session thread that is in a call is never stuck, or a thread that it waits for is not. -/
theorem enabled_of_busy (h : client.Handled) (hbusy : client.session ≠ .idle) :
    clientMachine.Enabled client := by
  cases hsession : client.session with
  | idle => exact absurd hsession hbusy
  | writeCheck packet =>
      refine ⟨.session .step, ?_⟩
      simp only [clientMachine, sessionStep, hsession]
      split_ifs <;> exact ⟨_, _, rfl⟩
  | writeLocked packet =>
      exact ⟨.session (.write []), _, _, by simp only [clientMachine, sessionStep, hsession]; rfl⟩
  | readLocked =>
      exact ⟨.session (.read [] []), _, _, by simp only [clientMachine, sessionStep, hsession]; rfl⟩
  | closing stage caller => exact enabled_inside h (by rw [hsession]; exact id)
  | shutdown stage => exact enabled_inside h (by rw [hsession]; exact id)

theorem begins_call {run : RunSession} {call : SessionMove} (hidle : client.session = .idle)
    (hcall : run.connectionCall = some call) :
    ∃ next out, clientMachine client (.session call) = some (next, out) := by
  simp only [clientMachine, hidle]
  cases hpc : run.pc <;>
    simp only [RunSession.connectionCall, hpc, reduceCtorEq, Option.some.injEq] at hcall <;>
    subst hcall <;> exact ⟨_, _, rfl⟩

end Client

namespace LiveSession

variable {memory : Memory} {s next : LiveSession} {action : LiveAction} {events : List LiveEvent}

/-- A call that is under way is one of the loop. -/
def Calling (s : LiveSession) : Prop := s.calling = true → s.run.connectionCall.isSome

theorem Calling.step (h : s.Calling) (hstep : liveMachine memory s action = some (next, events)) :
    next.Calling := by
  cases liveStep_spec hstep with
  | thread hclient => exact h
  | calls hcalling hcall hclient => exact fun _ => Option.isSome_iff_exists.mpr ⟨_, hcall⟩
  | continues hcalling hcall hclient hbusy => exact h
  | returns hcalling hcall hclient hidle hrun => exact fun hnot => by cases hnot
  | own hcalling hshows hrun => exact fun hnot => absurd (hcalling.symm.trans hnot) (by simp)

theorem enabled (memory : Memory) (hin : s.InCalls events) (hcalls : s.Calling) (hhandled : s.client.Handled)
    (hover : ¬ s.run.Over) : (liveMachine memory).Enabled s := by
  cases hcall : s.run.connectionCall with
  | none =>
      have hcalling : s.calling = false := by
        by_contra hnot
        have hsome := hcalls (Bool.not_eq_false _ ▸ hnot)
        rw [hcall] at hsome
        cases hsome
      obtain ⟨answer, hshows, haccepts⟩ := RunSession.accepts_own memory hcall hover s.client
      refine Transducer.enabled_of_isSome (.own answer) ?_
      simpa only [liveMachine, hcalling, hshows, and_self, if_true, Option.isSome_map] using haccepts
  | some call =>
      cases hcalling : s.calling with
      | false =>
          obtain ⟨client, out, hbegins⟩ := Client.begins_call (hin.idle hcalling) hcall
          refine Transducer.enabled_of_isSome .call ?_
          simp only [liveMachine, hcalling, hcall, hbegins, Option.map_some, Option.isSome_some]
      | true =>
          have hbusy : s.client.session ≠ .idle := by
            have hinside := hin.inside call hcalling hcall
            intro hidle
            rw [hidle] at hinside
            cases call with
            | writePacket packet => exact hinside
            | _ => exact hinside.1 rfl
          obtain ⟨action, client, out, hclient⟩ := Client.enabled_of_busy hhandled hbusy
          cases action with
          | thread index answer =>
              refine Transducer.enabled_of_isSome (.thread index answer) ?_
              simp only [liveMachine, hclient, Option.map_some, Option.isSome_some]
          | session move =>
              have haccepts := RunSession.accepts_callAnswer memory hcall s.client move out
              refine Transducer.enabled_of_isSome (.inside move) ?_
              simp only [liveMachine, hcalling, hcall, insideStep, hclient]
              cases client.session with
              | idle => simpa using haccepts
              | _ => rfl

end LiveSession

/-! ### On the way out -/

namespace Client

/-- A client that is shut down for good: for the first time, or again, or without ever having been
connected. -/
inductive Leaving (client : Client) : Prop
  | shutting {stage : ShutdownStage} (hsession : client.session = .shutdown stage)
      (hconsistent : client.Consistent) (hhandled : client.Handled) (hcleared : client.Cleared)
  | closed (hplace : client.session = .idle ∨ ∃ stage, client.session = .shutdown stage)
      (hclosed : client.Closed)
  | unmade (hnew : client = { Client.new with session := .shutdown .setFlag })

variable {client next : Client} {action : ClientAction} {events : List ClientEvent}

theorem shutdown_step {stage : ShutdownStage} (hsession : client.session = .shutdown stage)
    (hstep : clientMachine client action = some (next, events)) :
    (∀ move, action = .session move → move = .step)
      ∧ (next.session = .idle ∨ ∃ stage, next.session = .shutdown stage) := by
  cases action with
  | thread index answer =>
      obtain ⟨pc, out, -, -, rfl, -⟩ := threadStep_eq_some hstep
      exact ⟨fun move hmove => (by cases hmove), .inr ⟨stage, hsession⟩⟩
  | session move =>
      have hsteps := sessionStep_spec hstep
      rw [hsession] at hsteps
      cases hsteps with
      | shutdown hshutdown =>
          refine ⟨fun move hmove => (ClientAction.session.inj hmove).symm, ?_⟩
          cases stage with
          | takeHandle =>
              simp only [shutdownStep] at hshutdown
              split at hshutdown <;> obtain rfl := Option.some.inj hshutdown <;> exact .inr ⟨_, rfl⟩
          | joining thread =>
              simp only [shutdownStep] at hshutdown
              split_ifs at hshutdown
              obtain rfl := Option.some.inj hshutdown
              exact .inr ⟨_, rfl⟩
          | clearAlive =>
              obtain rfl := Option.some.inj hshutdown
              exact .inl rfl
          | _ =>
              obtain rfl := Option.some.inj hshutdown
              exact .inr ⟨_, rfl⟩

theorem Closed.handled (h : client.Closed) : client.Handled := by
  refine ⟨fun thread hthread => ?_, fun thread hthread => ?_⟩
  · rw [h.reconnectThread] at hthread
    cases hthread
  · have hinert := h.session
    cases hsession : client.session with
    | closing stage caller =>
        rw [hsession] at hinert hthread
        cases stage <;> first | exact absurd hinert id | cases hthread
    | shutdown stage =>
        rw [hsession] at hinert hthread
        cases stage <;> first | exact absurd hinert id | cases hthread
    | _ =>
        rw [hsession] at hthread
        cases hthread

/-- Nothing steps on a client that is closed but its session thread. -/
theorem Closed.not_thread (h : client.Closed) {index : Nat} {answer : Answer} :
    clientMachine client (.thread index answer) ≠ some (next, events) := by
  intro hstep
  obtain ⟨pc, out, hpc, hreconnects, -, -⟩ := threadStep_eq_some hstep
  exact h.ended index ⟨pc, hpc, hreconnects.ne_finished⟩

theorem closed_of_unmade
    (hstep : clientMachine { Client.new with session := .shutdown .setFlag } action =
      some (next, events)) :
    next.Closed ∧ next.session = .shutdown .takeHandle := by
  cases action with
  | thread index answer => cases hstep
  | session move =>
      obtain rfl := (shutdown_step rfl hstep).1 move rfl
      obtain ⟨rfl, -⟩ := Prod.mk.inj (Option.some.inj hstep)
      refine ⟨⟨rfl, rfl, rfl, rfl, rfl, ?_, trivial⟩, rfl⟩
      rintro i ⟨pc, hpc, -⟩
      cases hpc

theorem Leaving.handled (h : client.Leaving) : client.Handled := by
  cases h with
  | shutting hsession hconsistent hhandled hcleared => exact hhandled
  | closed hplace hclosed => exact hclosed.handled
  | unmade hnew =>
      subst hnew
      exact ⟨fun thread hthread => (by cases hthread), fun thread hthread => (by cases hthread)⟩

theorem Leaving.place (h : client.Leaving) :
    client.session = .idle ∨ ∃ stage, client.session = .shutdown stage := by
  cases h with
  | shutting hsession hconsistent hhandled hcleared => exact .inr ⟨_, hsession⟩
  | closed hplace hclosed => exact hplace
  | unmade hnew =>
      subst hnew
      exact .inr ⟨_, rfl⟩

theorem Leaving.closed_of_idle (h : client.Leaving) (hidle : client.session = .idle) :
    client.Closed := by
  cases h with
  | shutting hsession hconsistent hhandled hcleared =>
      rw [hidle] at hsession
      cases hsession
  | closed hplace hclosed => exact hclosed
  | unmade hnew =>
      subst hnew
      cases hidle

theorem Leaving.step (h : client.Leaving) (hbusy : client.session ≠ .idle)
    (hstep : clientMachine client action = some (next, events)) : next.Leaving := by
  cases h with
  | shutting hsession hconsistent hhandled hcleared =>
      obtain ⟨-, hidle | ⟨stage, hstage⟩⟩ := shutdown_step hsession hstep
      · exact .closed (.inl hidle) (closed_of_returns hconsistent hcleared hsession hstep hidle)
      · exact .shutting hstage (clientMachine_consistent hconsistent hstep)
          (clientMachine_handled hhandled hstep) (clientMachine_cleared hcleared hconsistent hstep)
  | closed hplace hclosed =>
      obtain ⟨stage, hsession⟩ := hplace.resolve_left hbusy
      exact .closed (shutdown_step hsession hstep).2 (hclosed.step hstep).1.1
  | unmade hnew =>
      subst hnew
      obtain ⟨hclosed, hsession⟩ := closed_of_unmade hstep
      exact .closed (.inr ⟨_, hsession⟩) hclosed

open Transducer in
/-- Each step takes something out of the potential of `shutdown`, and only an attempt that fails before the
flag is up puts something back. -/
theorem Leaving.potential_step (h : client.Leaving) (hbusy : client.session ≠ .idle)
    (hstep : clientMachine client action = some (next, events)) :
    next.potential + 1 ≤ client.potential
      + if client.shared.shuttingDown then 0 else refunds ClientEvent.refund events := by
  obtain ⟨stage, hsession⟩ := h.place.resolve_left hbusy
  have hinside : ¬ client.session.Outside := by
    rw [hsession]
    exact id
  cases action with
  | session move => exact (sessionStep_potential hinside hstep).trans (Nat.le_add_right _ _)
  | thread index answer =>
      cases h with
      | shutting hsession hconsistent hhandled hcleared =>
          exact threadStep_potential hconsistent hinside hstep
      | closed hplace hclosed => exact absurd hstep hclosed.not_thread
      | unmade hnew =>
          subst hnew
          cases hstep

theorem Leaving.potential_le (h : client.Leaving) : client.potential ≤ 22 := by
  have hthread := threadStepsLeft_le client.shared.shuttingDown client.threads
    (client.session.awaited client.reconnectThread)
  obtain hidle | ⟨stage, hsession⟩ := h.place
  · rw [potential, hidle]
    exact Nat.zero_le _
  · have hsteps : client.session.stepsLeft ≤ 6 := by
      rw [hsession]
      cases stage <;> simp [SessionPc.stepsLeft]
    unfold potential
    omega

end Client

/-! ### The program -/

namespace Program

variable {alloc : Allocator} {xsalsa20poly1305 : Bytes → Cipher} {launch : Launch}

/-- What a program has come through. -/
def Reached (alloc : Allocator) (xsalsa20poly1305 : Bytes → Cipher) (launch : Launch) : Program → Prop
  | .starting s => s.stage.stream? = none ∧ ∃ dials out,
    (startupMachine alloc.grants xsalsa20poly1305 launch.endpoint).run Startup.start dials = some (s, out)
  | .inSession s => ∃ actions events, (liveMachine alloc.grants).run
    ⟨launch.connected xsalsa20poly1305, RunSession.start launch.options, false⟩ actions =
      some (s, events)
  | .closing client _ => client.Leaving
  | .ended client => client.Closed

theorem reached_shutDown {client : Client} {dropped : Bool} {next : Program}
    {events : List ClientEvent} (h : shutDown client dropped = some (next, events))
    (hleaving : ∀ after out, clientMachine client (.session .shutdown) = some (after, out) →
      after.Leaving) : next.Reached alloc xsalsa20poly1305 launch := by
  obtain ⟨⟨after, out⟩, hcall, hnext⟩ := Option.map_eq_some_iff.mp h
  obtain ⟨rfl, -⟩ := Prod.mk.inj hnext
  exact hleaving after out hcall

theorem shutDown_eq_some {client after : Client} {out : List ClientEvent}
    (h : clientMachine client (.session .shutdown) = some (after, out)) :
    client.session = .idle ∧ after = { client with session := .shutdown .setFlag } := by
  have hsteps := Client.sessionStep_spec h
  generalize hsession : client.session = session at hsteps
  cases hsteps with
  | shutsDown => exact ⟨rfl, rfl⟩

theorem client_new_of_none {s : Startup} {dials : List Dial} {out : List Unit}
    (hrun : (startupMachine alloc.grants xsalsa20poly1305 launch.endpoint).run Startup.start dials =
      some (s, out)) (hnone : s.stage.stream? = none) : s.client = Client.new := by
  have houtcome := Startup.run_outcome hrun
  cases hstage : s.stage with
  | connected stream =>
      rw [hstage] at hnone
      cases hnone
  | _ =>
      rw [hstage] at houtcome
      exact houtcome.1

theorem reached_dial {s : Startup} {dial : Dial} {next : Startup} {out : List Unit}
    (h : Reached alloc xsalsa20poly1305 launch (.starting s))
    (hstep : startupMachine alloc.grants xsalsa20poly1305 launch.endpoint s dial = some (next, out)) :
    (afterDial launch.options next).Reached alloc xsalsa20poly1305 launch := by
  obtain ⟨-, dials, before, hrun⟩ := h
  have hnext := (startupMachine alloc.grants xsalsa20poly1305 launch.endpoint).run_append_eq_some.mpr
    ⟨s, before, out, hrun, (Transducer.run_singleton _).mpr hstep, rfl⟩
  cases hstage : next.stage with
  | connected stream =>
      have houtcome := Startup.run_outcome hnext
      rw [hstage] at houtcome
      obtain ⟨-, other, -, hestablishes⟩ := houtcome
      simp only [afterDial, hstage]
      refine ⟨[], [], ?_⟩
      rw [hestablishes.client]
      rfl
  | _ =>
      simp only [afterDial, hstage]
      exact ⟨by rw [hstage]; rfl, _, _, hnext⟩

theorem reached_proceed {p next : Program} {events : List ClientEvent}
    (h : p.Reached alloc xsalsa20poly1305 launch) (hstep : p.proceed = some (next, events)) :
    next.Reached alloc xsalsa20poly1305 launch := by
  cases p with
  | starting s =>
      obtain ⟨hnone, dials, out, hrun⟩ := h
      have hnew := client_new_of_none hrun hnone
      have hleaving : ∀ after out, clientMachine s.client (.session .shutdown) = some (after, out) →
          after.Leaving := by
        rw [hnew]
        exact fun after out hcall => .unmade (shutDown_eq_some hcall).2
      simp only [proceed] at hstep
      split at hstep
      · exact reached_shutDown hstep hleaving
      · exact reached_shutDown hstep hleaving
      · cases hstep
  | inSession s =>
      obtain ⟨actions, before, hrun⟩ := h
      obtain ⟨moves, hclient⟩ := LiveSession.client_run hrun
      have hleaving : ∀ after out, clientMachine s.client (.session .shutdown) = some (after, out) →
          after.Leaving := by
        intro after out hcall
        have hconsistent := connected_run_consistent hclient
        have hsession : after.session = .shutdown .setFlag := by
          rw [(shutDown_eq_some hcall).2]
        exact .shutting hsession (clientMachine_consistent hconsistent hcall)
          (Client.clientMachine_handled (connected_run_handled hclient) hcall)
          (Client.clientMachine_cleared (Client.connected_run_cleared hclient) hconsistent hcall)
      simp only [proceed] at hstep
      split at hstep
      · exact reached_shutDown hstep hleaving
      · exact reached_shutDown hstep hleaving
      · cases hstep
  | closing client dropped =>
      simp only [proceed] at hstep
      split at hstep
      · next hidle =>
          have hclosed := Client.Leaving.closed_of_idle h hidle
          split_ifs at hstep
          · obtain ⟨rfl, -⟩ := Prod.mk.inj (Option.some.inj hstep)
            exact hclosed
          · refine reached_shutDown hstep fun after out hcall => ?_
            refine .closed (.inr ⟨.setFlag, ?_⟩) (hclosed.step hcall).1.1
            rw [(shutDown_eq_some hcall).2]
      · cases hstep
  | ended client => cases hstep

theorem start_reached (alloc : Allocator) (xsalsa20poly1305 : Bytes → Cipher) (launch : Launch) :
    start.Reached alloc xsalsa20poly1305 launch := ⟨rfl, [], [], rfl⟩

theorem closing_step {client : Client} {dropped : Bool} {action : ClientAction} {next : Program}
    {events : List ClientEvent} (hleaving : client.Leaving)
    (haction : action = .session .step ∨ ∃ index answer, action = .thread index answer)
    (hstep : (clientMachine client action).map (fun out => (closing out.1 dropped, out.2)) =
      some (next, events)) :
    ∃ after, next = .closing after dropped ∧ clientMachine client action = some (after, events)
      ∧ client.session ≠ .idle ∧ after.Leaving := by
  obtain ⟨⟨after, out⟩, hclient, hnext⟩ := Option.map_eq_some_iff.mp hstep
  obtain ⟨rfl, rfl⟩ := Prod.mk.inj hnext
  have hbusy : client.session ≠ .idle := by
    intro hidle
    obtain rfl | ⟨index, answer, rfl⟩ := haction
    · simp [clientMachine, hidle, Client.sessionStep] at hclient
    · exact (hleaving.closed_of_idle hidle).not_thread hclient
  exact ⟨after, rfl, hclient, hbusy, hleaving.step hbusy hclient⟩

theorem reached_step {p next : Program} {action : ProgramAction} {events : List ClientEvent}
    (h : p.Reached alloc xsalsa20poly1305 launch)
    (hstep : programMachine alloc.grants xsalsa20poly1305 launch p action = some (next, events)) :
    next.Reached alloc xsalsa20poly1305 launch := by
  cases action with
  | proceed =>
      have hproceed : p.proceed = some (next, events) := by
        cases p <;> exact hstep
      exact reached_proceed h hproceed
  | dial dial =>
      cases p with
      | starting s =>
          obtain ⟨⟨after, out⟩, hdial, hnext⟩ := Option.map_eq_some_iff.mp hstep
          obtain ⟨rfl, -⟩ := Prod.mk.inj hnext
          exact reached_dial h hdial
      | _ => cases hstep
  | live action =>
      cases p with
      | inSession s =>
          obtain ⟨⟨after, out⟩, hlive, hnext⟩ := Option.map_eq_some_iff.mp hstep
          obtain ⟨rfl, -⟩ := Prod.mk.inj hnext
          obtain ⟨actions, before, hrun⟩ := h
          exact ⟨actions ++ [action], before ++ out,
            (liveMachine alloc.grants).run_append_eq_some.mpr
              ⟨s, before, out, hrun, (Transducer.run_singleton _).mpr hlive, rfl⟩⟩
      | _ => cases hstep
  | step =>
      cases p with
      | closing client dropped =>
          obtain ⟨after, rfl, -, -, hleaving⟩ := closing_step h (.inl rfl) hstep
          exact hleaving
      | _ => cases hstep
  | thread index answer =>
      cases p with
      | closing client dropped =>
          obtain ⟨after, rfl, -, -, hleaving⟩ := closing_step h (.inr ⟨index, answer, rfl⟩) hstep
          exact hleaving
      | _ => cases hstep

/-- Steps until the program ends, if no attempt fails. -/
def stepsLeft : Program → Nat
  | .closing client dropped => client.potential + if dropped then 1 else 8
  | _ => 0

/-- In `shutdown`, or ended. -/
def Leaves : Program → Prop
  | .closing _ _ => True
  | .ended _ => True
  | _ => False

/-- The flag `shutting_down` of a program that is on its way out. -/
def flag : Program → Bool
  | .closing client _ => client.shared.shuttingDown
  | _ => true

theorem stepsLeft_le {p : Program} (h : p.Reached alloc xsalsa20poly1305 launch) : p.stepsLeft ≤ 30 := by
  cases p with
  | closing client dropped =>
      have hpotential := Client.Leaving.potential_le h
      simp only [stepsLeft]
      split_ifs <;> omega
  | _ => exact Nat.zero_le _

open Transducer in
/-- A program on its way out stays there, with its flag, and each step brings it nearer to its end. -/
theorem leaves_step {p next : Program} {action : ProgramAction} {events : List ClientEvent}
    (h : p.Reached alloc xsalsa20poly1305 launch) (hleaves : p.Leaves)
    (hstep : programMachine alloc.grants xsalsa20poly1305 launch p action = some (next, events)) :
    next.Leaves ∧ (p.flag = true → next.flag = true)
      ∧ next.stepsLeft + 1 ≤ p.stepsLeft + if p.flag then 0 else refunds ClientEvent.refund events := by
  cases p with
  | starting s => exact absurd hleaves id
  | inSession s => exact absurd hleaves id
  | ended client => cases action <;> cases hstep
  | closing client dropped =>
      have hgoes {move : ClientAction}
          (hmove : move = .session .step ∨ ∃ index answer, move = .thread index answer)
          (hmoved : (clientMachine client move).map (fun out => (closing out.1 dropped, out.2)) =
            some (next, events)) :
          next.Leaves ∧ ((closing client dropped).flag = true → next.flag = true)
            ∧ next.stepsLeft + 1 ≤ (closing client dropped).stepsLeft
              + if client.shared.shuttingDown then 0 else refunds ClientEvent.refund events := by
        obtain ⟨after, rfl, hclient, hbusy, -⟩ := closing_step h hmove hmoved
        have hpaid := Client.Leaving.potential_step h hbusy hclient
        refine ⟨trivial, fun hflag => shuttingDown_step hflag hclient, ?_⟩
        simp only [stepsLeft]
        omega
      cases action with
      | step => exact hgoes (.inl rfl) hstep
      | thread index answer => exact hgoes (.inr ⟨index, answer, rfl⟩) hstep
      | dial dial => cases hstep
      | live action => cases hstep
      | proceed =>
          simp only [programMachine, proceed] at hstep
          split at hstep
          · next hidle =>
              have hclosed := Client.Leaving.closed_of_idle h hidle
              split_ifs at hstep with hdropped
              · obtain ⟨rfl, rfl⟩ := Prod.mk.inj (Option.some.inj hstep)
                refine ⟨trivial, fun _ => rfl, ?_⟩
                simp [stepsLeft, hdropped]
              · obtain ⟨⟨after, out⟩, hcall, hnext⟩ := Option.map_eq_some_iff.mp hstep
                obtain ⟨rfl, rfl⟩ := Prod.mk.inj hnext
                rw [(shutDown_eq_some hcall).2]
                -- Nothing is left to be joined, and the second `shutdown` takes six steps.
                have hpotential :
                    ({ client with session := .shutdown .setFlag } : Client).potential = 6 := by
                  simp [Client.potential, SessionPc.stepsLeft, SessionPc.awaited,
                    hclosed.reconnectThread, Client.threadStepsLeft]
                refine ⟨trivial, id, ?_⟩
                simp only [stepsLeft, hpotential, if_neg hdropped, if_true]
                omega
          · cases hstep

open Transducer in
theorem length_le_of_leaves {p q : Program} {actions : List ProgramAction} {events : List ClientEvent}
    (h : p.Reached alloc xsalsa20poly1305 launch) (hleaves : p.Leaves)
    (hrun : (programMachine alloc.grants xsalsa20poly1305 launch).run p actions = some (q, events)) :
    actions.length ≤ 30 + 13 * events.countP ClientEvent.isFailure := by
  have hsteps {p q : Program} {action : ProgramAction} {out : List ClientEvent}
      (hduring : p.Reached alloc xsalsa20poly1305 launch ∧ p.Leaves) (_ : True)
      (hstep : programMachine alloc.grants xsalsa20poly1305 launch p action = some (q, out)) :
      (q.Reached alloc xsalsa20poly1305 launch ∧ q.Leaves)
        ∧ q.stepsLeft + 1 ≤ p.stepsLeft + refunds ClientEvent.refund out := by
    obtain ⟨hnext, -, hpaid⟩ := leaves_step hduring.1 hduring.2 hstep
    exact ⟨⟨reached_step hduring.1 hstep, hnext⟩, hpaid.trans (by split <;> omega)⟩
  have hpaid := (Transducer.length_le_of_potential _ ClientEvent.refund hsteps ⟨h, hleaves⟩
    (fun _ _ _ _ _ _ _ _ _ => trivial) hrun).2
  have hfailures : refunds ClientEvent.refund events = 13 * events.countP ClientEvent.isFailure :=
    refunds_ite ClientEvent.isFailure 13 events
  have hstart := stepsLeft_le h
  omega

open Transducer in
theorem length_le_of_flag {p q : Program} {actions : List ProgramAction} {events : List ClientEvent}
    (h : p.Reached alloc xsalsa20poly1305 launch) (hleaves : p.Leaves) (hflag : p.flag = true)
    (hrun : (programMachine alloc.grants xsalsa20poly1305 launch).run p actions = some (q, events)) :
    actions.length ≤ 30 := by
  have hsteps {p q : Program} {action : ProgramAction} {out : List ClientEvent}
      (hduring : p.Reached alloc xsalsa20poly1305 launch ∧ p.Leaves ∧ p.flag = true) (_ : True)
      (hstep : programMachine alloc.grants xsalsa20poly1305 launch p action = some (q, out)) :
      (q.Reached alloc xsalsa20poly1305 launch ∧ q.Leaves ∧ q.flag = true)
        ∧ q.stepsLeft + 1 ≤ p.stepsLeft + refunds (fun _ => 0) out := by
    obtain ⟨hnext, hkept, hpaid⟩ := leaves_step hduring.1 hduring.2.1 hstep
    refine ⟨⟨reached_step hduring.1 hstep, hnext, hkept hduring.2.2⟩, ?_⟩
    rw [if_pos hduring.2.2] at hpaid
    rw [refunds_zero]
    exact hpaid
  have hpaid := (Transducer.length_le_of_potential _ (fun _ => 0) hsteps ⟨h, hleaves, hflag⟩
    (fun _ _ _ _ _ _ _ _ _ => trivial) hrun).2
  rw [refunds_zero] at hpaid
  have hstart := stepsLeft_le h
  omega

theorem enabled {p : Program} (h : p.Reached alloc xsalsa20poly1305 launch)
    (hgoing : ∀ client, p ≠ .ended client) :
    (programMachine alloc.grants xsalsa20poly1305 launch).Enabled p := by
  have hshut (client : Client) (dropped : Bool) (hidle : client.session = .idle) :
      (shutDown client dropped).isSome := by
    simp [shutDown, clientMachine, hidle, Client.sessionStep]
  cases p with
  | starting s =>
      obtain ⟨hnone, dials, out, hrun⟩ := h
      have hidle : s.client.session = .idle := by
        rw [client_new_of_none hrun hnone]
        rfl
      cases hstage : s.stage with
      | trying attempts =>
          refine Transducer.enabled_of_isSome (.dial { resolved := .ok [] }) ?_
          simp only [programMachine, startupMachine, hstage, Option.map_some, Option.isSome_some]
      | connected stream =>
          rw [hstage] at hnone
          cases hnone
      | failed e =>
          refine Transducer.enabled_of_isSome .proceed ?_
          simpa only [programMachine, proceed, hstage] using hshut s.client true hidle
      | panicked =>
          refine Transducer.enabled_of_isSome .proceed ?_
          simpa only [programMachine, proceed, hstage] using hshut s.client true hidle
  | inSession s =>
      obtain ⟨actions, before, hrun⟩ := h
      have hin := (liveMachine alloc.grants).run_invariant (I := LiveSession.InCalls)
        LiveSession.InCalls.step [] (LiveSession.start_inCalls launch.options _ _) hrun
      have hcalls : s.Calling := (liveMachine alloc.grants).run_invariant_state
        LiveSession.Calling.step (fun hnot => by cases hnot) hrun
      obtain ⟨moves, hclient⟩ := LiveSession.client_run hrun
      by_cases hover : s.run.Over
      · have hidle : s.client.session = .idle := by
          refine hin.idle ?_
          by_contra hcalling
          have hsome := hcalls (Bool.not_eq_false _ ▸ hcalling)
          revert hover hsome
          unfold RunSession.Over RunSession.connectionCall
          cases s.run.pc <;> simp
        refine Transducer.enabled_of_isSome .proceed ?_
        unfold RunSession.Over at hover
        simp only [programMachine, proceed]
        cases hpc : s.run.pc <;> rw [hpc] at hover
        case returned result => exact hshut s.client false hidle
        case crashed => exact hshut s.client true hidle
        all_goals exact absurd hover id
      · obtain ⟨action, after, out, hlive⟩ :=
          LiveSession.enabled alloc.grants hin hcalls (connected_run_handled hclient) hover
        refine Transducer.enabled_of_isSome (.live action) ?_
        simp only [programMachine, hlive, Option.map_some, Option.isSome_some]
  | closing client dropped =>
      have hleaving : client.Leaving := h
      obtain hidle | ⟨stage, hsession⟩ := hleaving.place
      · refine Transducer.enabled_of_isSome .proceed ?_
        simp only [programMachine, proceed, hidle]
        cases dropped with
        | true => rfl
        | false => exact hshut client true hidle
      · obtain ⟨action, after, out, hclient⟩ :=
          enabled_inside hleaving.handled (by rw [hsession]; exact id)
        cases action with
        | session move =>
            obtain rfl := (Client.shutdown_step hsession hclient).1 move rfl
            refine Transducer.enabled_of_isSome .step ?_
            simp only [programMachine, hclient, Option.map_some, Option.isSome_some]
        | thread index answer =>
            refine Transducer.enabled_of_isSome (.thread index answer) ?_
            simp only [programMachine, hclient, Option.map_some, Option.isSome_some]
  | ended client => exact absurd rfl (hgoing client)

/-- What the program leaves behind. -/
def client? : Program → Option Client
  | .ended client => some client
  | _ => none

end Program

open Program in
/-- **The program ends.** In every run of the program, from its keys on and with any interleaving of its
threads: when it has ended, no reader, no writer, no socket and no reconnect thread is left; until then
something can always step; and once the session is over it takes at most 30 steps of all threads together
and 13 more for each reconnect attempt that fails meanwhile, none of them once `shutting_down` is set. -/
theorem program_ends {alloc : Allocator} {xsalsa20poly1305 : Bytes → Cipher} {launch : Launch}
    {actions : List ProgramAction} {p : Program} {events : List ClientEvent}
    (hrun : (programMachine alloc.grants xsalsa20poly1305 launch).run start actions =
      some (p, events)) :
    (∀ client, p = .ended client →
      client.shared.reader = none ∧ client.shared.writer = none ∧ client.shared.socketAlive = false
        ∧ client.shared.shuttingDown = true ∧ ∀ i, ¬ Running client.threads i)
      ∧ ((∀ client, p ≠ .ended client) →
        (programMachine alloc.grants xsalsa20poly1305 launch).Enabled p)
      ∧ ∀ client dropped, p = .closing client dropped → ∀ more q later,
        (programMachine alloc.grants xsalsa20poly1305 launch).run p more = some (q, later) →
          more.length ≤ 30 + 13 * later.countP ClientEvent.isFailure
            ∧ (client.shared.shuttingDown = true → more.length ≤ 30) := by
  have hreached : p.Reached alloc xsalsa20poly1305 launch :=
    (programMachine alloc.grants xsalsa20poly1305 launch).run_invariant_state reached_step
      (start_reached alloc xsalsa20poly1305 launch) hrun
  refine ⟨?_, enabled hreached, ?_⟩
  · rintro client rfl
    have hclosed : client.Closed := hreached
    exact ⟨hclosed.reader, hclosed.writer, hclosed.socketAlive, hclosed.shuttingDown, hclosed.ended⟩
  · rintro client dropped rfl more q later hmore
    exact ⟨length_le_of_leaves hreached trivial hmore,
      fun hflag => length_le_of_flag hreached trivial hflag hmore⟩

/-- The second attempt is welcomed, the server says nothing more, and the wait for its answer times out. -/
theorem program_ends_after_timeout :
    let launch : Launch :=
      ⟨"host", 2022, ⟨"0123456789abcdef", "0123456789abcdef0123456789abcdef"⟩, {}⟩
    let response : Bytes :=
      writeProto ({ status := some .newClient, error := none } : ConnectResponse)
    let dials : List ProgramAction := [.dial { resolved := .ok [] },
      .dial { resolved := .ok [.ok ⟨response, List.replicate 8 (.ok 64)⟩] }]
    let session : List ProgramAction := [.live .call, .live (.inside .step),
      .live (.inside (.write (List.replicate 8 (.ok 64)))), .live (.own (.now 0)), .live (.own (.now 0)),
      .live .call, .live (.inside (.read [] [])), .live (.own (.now 3000000000))]
    let leaving : List ProgramAction := .proceed :: List.replicate 5 .step
    ∃ client events,
      (programMachine messageAllocator.grants (fun _ => tagCipher) launch).run Program.start
          (dials ++ session ++ leaving ++ leaving ++ [.proceed]) = some (.ended client, events)
        ∧ client.shared.writer = none := by
  intro launch response dials session leaving
  have hran : ((programMachine messageAllocator.grants (fun _ => tagCipher) launch).run Program.start
      (dials ++ session ++ leaving ++ leaving ++ [.proceed])).map
        (fun out => out.1.client?.isSome) = some true := by
    decide +kernel
  obtain ⟨⟨p, events⟩, hrun, hended⟩ := Option.map_eq_some_iff.mp hran
  cases p with
  | ended client => exact ⟨client, events, hrun, ((program_ends hrun).1 client rfl).2.1⟩
  | _ => cases hended

end EternalTerminal
