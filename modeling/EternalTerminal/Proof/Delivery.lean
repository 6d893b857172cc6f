import EternalTerminal.Proof.CatchupQueue
import EternalTerminal.Proof.Severed

/-!
# Catch-up entries and the end of the session

The main loop reads only while it sees a socket, so what is queued when the connection is cut stays
queued until a reconnect succeeds, and when the server rejects the reconnect it stays there for good.
Only the wait for `INITIAL_RESPONSE` reads in between.
-/

namespace EternalTerminal

/-! ### The loop and the connection -/

/-- The main loop drains the connection. -/
def RunPc.Draining : RunPc → Prop
  | .draining _ => True
  | .rearmingOutput _ => True
  | _ => False

theorem RunPc.Plain.not_draining {pc : RunPc} (h : pc.Plain) : ¬ pc.Draining := by
  intro hdraining
  cases pc with
  | draining coalesced => exact h
  | rearmingOutput coalesced => exact h
  | _ => exact hdraining

/-- The packet that a call answered. -/
def RunAnswer.packets : RunAnswer → List Packet
  | .read packet => packet.toList
  | _ => []

namespace RunSession

variable {memory : Memory} {s next : RunSession} {answer : RunAnswer} {out : List RunEvent}

theorem not_responded (h : runMachine memory s answer = some (next, out))
    (hanswer : ∀ packet, answer ≠ .read (some packet)) (packet : Packet) :
    .responded packet ∉ out := by
  intro hmem
  cases runStep_spec h with
  | moves hplain hplain' hread hquiet =>
      obtain ⟨packet', result, hevent, -⟩ := hquiet _ hmem
      simp at hevent
  | @responds deadline packet' hpc =>
      cases packet' with
      | none => simp at hmem
      | some packet' => exact hanswer packet' rfl
  | _ => simp at hmem

theorem received_of_step (h : runMachine memory s answer = some (next, out)) :
    LiveEvent.received (out.map .run) = answer.packets := by
  cases runStep_spec h with
  | moves hplain hplain' hread hquiet =>
      have hnone : answer.packets = [] := by
        cases answer with
        | read packet => exact absurd rfl (hread packet)
        | _ => rfl
      rw [hnone, LiveEvent.received, List.filterMap_map, List.filterMap_eq_nil_iff]
      intro event hmem
      obtain ⟨packet, result, rfl, -⟩ := hquiet event hmem
      rfl
  | @responds deadline packet hpc => cases packet <;> rfl
  | _ => rfl

theorem ended_answer (h : runMachine memory s answer = some (next, out)) (hended : .ended ∈ out) :
    answer = .shuttingDown true ∧ next.pc = .returned (.ok ()) := by
  cases runStep_spec h with
  | moves hplain hplain' hread hquiet =>
      obtain ⟨packet', result, hevent, -⟩ := hquiet _ hended
      simp at hevent
  | ends hpc => exact ⟨rfl, rfl⟩
  | _ => simp at hended

/-- The loop drains because it saw a socket, or because it was draining. -/
theorem draining_of_step (h : runMachine memory s answer = some (next, out))
    (hdraining : next.pc.Draining) :
    answer = .hasSocket true
      ∨ s.pc.Draining ∧ ((∃ t, answer = .now t) ∨ ∃ packet, answer = .read (some packet)) := by
  cases runStep_spec h with
  | moves hplain hplain' hread hquiet => exact absurd hdraining hplain'.not_draining
  | responds hpc => exact absurd hdraining (s.opts.onResponse_plain memory _ _).not_draining
  | ticks hplain hplain' hclock => exact absurd hdraining hplain'.not_draining
  | rearms hplain hplain' hclock => exact absurd hdraining hplain'.not_draining
  | ends hpc => exact absurd hdraining id
  | connected hpc => exact .inl rfl
  | unconnected hpc => exact absurd hdraining s.opts.onLocal_plain.not_draining
  | @drained coalesced hpc =>
      simp only [ClientOptions.onDrained] at hdraining
      split_ifs at hdraining <;> exact absurd hdraining id
  | reads hpc =>
      rw [hpc]
      exact .inr ⟨trivial, .inr ⟨_, rfl⟩⟩
  | rearmsOutput hpc hclock =>
      rw [hpc]
      exact .inr ⟨trivial, .inl ⟨_, rfl⟩⟩
  | shows hpc hplain => exact absurd hdraining hplain.not_draining
  | due hpc hclock hdue => exact absurd hdraining id
  | rearmsKeepalive hpc hclock =>
      simp only at hdraining
      split_ifs at hdraining <;> exact absurd hdraining id
  | forces hpc => exact absurd hdraining s.opts.onLocal_plain.not_draining
  | sendsKeepalive hpc => exact absurd hdraining s.opts.onLocal_plain.not_draining

theorem not_returned_of_step (h : runMachine memory s answer = some (next, out))
    (result : Except RunError Unit) : s.pc ≠ .returned result := by
  intro hpc
  simp [runMachine, hpc, runStep] at h

end RunSession

namespace LiveSession

open LiveEvent Client

/-- What the session loop, the connection and the history have to do with each other. -/
structure Attended (s : LiveSession) (events : List LiveEvent) : Prop where
  consistent : s.client.Consistent
  severed : s.client.Severed
  idle : s.calling = false → s.client.session = .idle
  busy : s.calling = true → s.client.session ≠ .idle
  reading : s.client.session = .readLocked → s.run.connectionCall = some .readPacket
  draining : s.run.pc.Draining → s.client.session = .idle ∨ s.client.session = .readLocked →
    s.client.shared.socketAlive = true
  queued : s.client.shared.readerSocket = none → ¬ BeforeCut s.client.session →
    s.client.localBuffer.length = leftQueued events
  ended : .run .ended ∈ events → s.client.shared.shuttingDown = true ∧ s.calling = false
    ∧ ∃ result, s.run.pc = .returned result

theorem start_attended (opts : ClientOptions) (readerCrypto writerCrypto : CryptoHandler) :
    Attended (start opts readerCrypto writerCrypto) [] where
  consistent := connected_consistent readerCrypto writerCrypto
  severed := connected_severed readerCrypto writerCrypto
  idle := fun _ => rfl
  busy := by simp [start]
  reading := by simp [start, connected]
  draining := fun hdraining => absurd hdraining id
  queued := by simp [start, connected, Shared.readerSocket, BackedReader.new]
  ended := by simp

variable {memory : Memory} {s : LiveSession} {before : List LiveEvent}

/-- A thread leaves the queue alone or gives the reader a socket. -/
theorem reader_of_thread {shared : Shared} {pc : ReconnectPc} {out : ReconnectOutput}
    (h : Reconnects shared pc out) :
    out.shared.reader = shared.reader ∨ out.shared.readerSocket ≠ none := by
  cases h with
  | revivesReader =>
      cases hreader : shared.reader with
      | none => exact .inl (by simp)
      | some reader => exact .inr (by simp [Shared.readerSocket, BackedReader.revive])
  | _ => exact .inl rfl

theorem Attended.thread (h : Attended s before) {index : Nat} {answer : Answer} {client : Client}
    {events : List ClientEvent}
    (hstep : clientMachine s.client (.thread index answer) = some (client, events)) :
    Attended { s with client } (before ++ events.map .client) := by
  have hconsistent := clientMachine_consistent h.consistent hstep
  have hsevered := clientMachine_severed h.severed h.consistent (by simp) hstep
  obtain ⟨pc, out, hpc, hreconnects, rfl, -⟩ := threadStep_eq_some hstep
  have hrunning : Running s.client.threads index := ⟨pc, hpc, hreconnects.ne_finished⟩
  refine ⟨hconsistent, hsevered, h.idle, h.busy, h.reading, ?_, ?_, ?_⟩
  · intro hdraining hsession
    obtain ⟨handle, howned⟩ := h.consistent.owned
    have hdead := howned.dead index hrunning
    rw [h.draining hdraining hsession] at hdead
    exact absurd hdead (by simp)
  · intro hcut hbefore
    rw [leftQueued_append, foldl_client]
    rcases reader_of_thread hreconnects with hsame | hsocket
    · rw [localBuffer_congr hsame]
      exact h.queued ((readerSocket_congr hsame).symm.trans hcut) hbefore
    · exact absurd hcut hsocket
  · intro hended
    rcases List.mem_append.mp hended with hended | hended
    · exact absurd hrunning ((h.severed.shut (h.ended hended).1).2.2 index)
    · exact absurd hended (run_not_mem_client _ _)

theorem connectionCall_ne_shutdown {run : RunSession} {call : SessionMove}
    (h : run.connectionCall = some call) : call ≠ .shutdown := by
  rintro rfl
  unfold RunSession.connectionCall at h
  cases hpc : run.pc <;> simp [hpc] at h

theorem connectionCall_returned {run : RunSession} {call : SessionMove}
    (h : run.connectionCall = some call) (result : Except RunError Unit) :
    run.pc ≠ .returned result := by
  intro hpc
  simp [RunSession.connectionCall, hpc] at h

theorem Attended.calls (h : Attended s before) {call : SessionMove} {client : Client}
    {events : List ClientEvent} (hcalling : s.calling = false)
    (hcall : s.run.connectionCall = some call)
    (hstep : clientMachine s.client (.session call) = some (client, events)) :
    Attended { s with client, calling := true } (before ++ events.map .client) := by
  have hconsistent := clientMachine_consistent h.consistent hstep
  have hsevered := clientMachine_severed h.severed h.consistent
    (by simpa using connectionCall_ne_shutdown hcall) hstep
  have hidle := h.idle hcalling
  have hended : .run .ended ∉ before ++ events.map .client := by
    intro hended
    rcases List.mem_append.mp hended with hended | hended
    · obtain ⟨result, hpc⟩ := (h.ended hended).2.2
      exact connectionCall_returned hcall result hpc
    · exact run_not_mem_client _ _ hended
  have hqueued : s.client.shared.readerSocket = none →
      s.client.localBuffer.length = leftQueued (before ++ events.map .client) := by
    intro hcut
    rw [leftQueued_append, foldl_client]
    exact h.queued hcut (by rw [hidle]; exact id)
  have hsteps := sessionStep_spec hstep
  rw [hidle] at hsteps
  cases hsteps with
  | called packet =>
      exact ⟨hconsistent, hsevered, by simp, by simp, by simp, by simp, fun hcut _ => hqueued hcut,
        fun hmem => absurd hmem hended⟩
  | reads =>
      exact ⟨hconsistent, hsevered, by simp, by simp, fun _ => hcall,
        fun hdraining _ => h.draining hdraining (.inl hidle), fun hcut _ => hqueued hcut,
        fun hmem => absurd hmem hended⟩
  | closes =>
      exact ⟨hconsistent, hsevered, by simp, by simp, by simp, by simp, fun hcut _ => hqueued hcut,
        fun hmem => absurd hmem hended⟩
  | shutsDown => exact absurd rfl (connectionCall_ne_shutdown hcall)

theorem Attended.queued_inside (h : Attended s before) {move : SessionMove} {client : Client}
    {events : List ClientEvent} (hread : s.client.session ≠ .readLocked)
    (hstep : clientMachine s.client (.session move) = some (client, events))
    (hcut : client.shared.readerSocket = none) (hbefore : ¬ BeforeCut client.session) :
    client.localBuffer.length =
      leftQueued (before ++ (events.map .client ++ s.client.queueEvents move)) := by
  have hqueue := queue_step hread h.severed.noShutdown (sessionStep_spec hstep)
  rw [leftQueued_append, List.foldl_append, foldl_client]
  generalize s.client.queueEvents move = shown at hqueue ⊢
  cases hqueue with
  | keeps hreader hkeeps =>
      rw [localBuffer_congr hreader]
      exact h.queued ((readerSocket_congr hreader).symm.trans hcut) fun hb => hbefore (hkeeps hb)
  | cuts hreader =>
      simp only [localBuffer, hreader]
      cases s.client.shared.reader <;> rfl

theorem inside_step {client next : Client} {move : SessionMove} {events : List ClientEvent}
    (hidle : client.session ≠ .idle) (hshutdown : ∀ stage, client.session ≠ .shutdown stage)
    (hstep : SessionSteps client client.session move next events) :
    move ≠ .shutdown ∧ next.session ≠ .readLocked := by
  generalize hsession : client.session = session at hidle hshutdown hstep
  cases hstep with
  | writes hwriter hwrites =>
      simp only [afterWrite]
      split <;> simp
  | read hreader hreads hnext => rcases hnext with rfl | rfl <;> simp
  | @closing stage caller next hclose =>
      refine ⟨by simp, ?_⟩
      rcases closeStep_session hclose with ⟨stage', hnext⟩ | hnext
      · simp [hnext]
      · rw [hnext]
        cases caller <;> simp [returnTo]
  | shutdown hshut => exact absurd rfl (hshutdown _)
  | reads => exact absurd rfl hidle
  | shutsDown => exact absurd rfl hidle
  | _ => simp

/-- What a step inside a call keeps of the connection. -/
theorem Attended.inside (h : Attended s before) {move : SessionMove} {client : Client}
    {events : List ClientEvent} (hcalling : s.calling = true)
    (hstep : clientMachine s.client (.session move) = some (client, events)) :
    client.Consistent ∧ client.Severed ∧ client.session ≠ .readLocked := by
  obtain ⟨hmove, hunlocked⟩ :=
    inside_step (h.busy hcalling) h.severed.noShutdown (sessionStep_spec hstep)
  have hsevered := clientMachine_severed h.severed h.consistent (by simpa using hmove) hstep
  exact ⟨clientMachine_consistent h.consistent hstep, hsevered, hunlocked⟩

theorem Attended.not_ended (h : Attended s before) (hcalling : s.calling = true) :
    .run .ended ∉ before := by
  intro hended
  have hnot := (h.ended hended).2.1
  rw [hcalling] at hnot
  exact absurd hnot (by simp)

theorem Attended.continues (h : Attended s before) {move : SessionMove} {client : Client}
    {events : List ClientEvent} (hcalling : s.calling = true)
    (hstep : clientMachine s.client (.session move) = some (client, events))
    (hbusy : client.session ≠ .idle) :
    Attended { s with client } (before ++ (events.map .client ++ s.client.queueEvents move)) := by
  obtain ⟨hconsistent, hsevered, hunlocked⟩ := h.inside hcalling hstep
  refine ⟨hconsistent, hsevered, fun hnot => ?_, fun _ => hbusy, fun hread => absurd hread hunlocked,
    fun _ hsession => ?_, fun hcut hbefore => ?_, fun hended => ?_⟩
  · rw [hcalling] at hnot
    exact absurd hnot (by simp)
  · rcases hsession with hidle | hread
    · exact absurd hidle hbusy
    · exact absurd hread hunlocked
  · by_cases hread : s.client.session = .readLocked
    · obtain ⟨incoming, results, rfl, rfl⟩ := readLocked_step hread hstep
      rcases (s.client.readStep_shared incoming results).2.2 with hidle | hclosing
      · exact absurd hidle hbusy
      · exact absurd (by rw [hclosing]; exact trivial) hbefore
    · exact h.queued_inside hread hstep hcut hbefore
  · rcases List.mem_append.mp hended with hended | hended
    · exact absurd hended (h.not_ended hcalling)
    · rcases List.mem_append.mp hended with hended | hended
      · exact absurd hended (run_not_mem_client _ _)
      · exact absurd hended (run_not_mem_queueEvents _ _ _)

theorem readResult_eq_none {client : Client} (hsession : client.session ≠ .readLocked)
    (move : SessionMove) : client.readResult move = none := by
  cases move with
  | read incoming results =>
      simp only [readResult]
      split
      · next hread hreader => exact absurd hread hsession
      · rfl
  | _ => rfl

theorem callAnswer_cases (client : Client) (call move : SessionMove) (events : List ClientEvent) :
    (call = .readPacket ∧ client.callAnswer call move events = .read (client.readResult move))
      ∨ (∃ result, client.callAnswer call move events = .wrote result)
      ∨ client.callAnswer call move events = .closed := by
  cases call with
  | writePacket packet => exact .inr (.inl ⟨_, rfl⟩)
  | readPacket => exact .inl ⟨rfl, rfl⟩
  | _ => exact .inr (.inr rfl)

theorem callAnswer_ne_own (client : Client) (call move : SessionMove) (events : List ClientEvent) :
    (∀ value, client.callAnswer call move events ≠ .hasSocket value)
      ∧ (∀ t, client.callAnswer call move events ≠ .now t)
      ∧ ∀ value, client.callAnswer call move events ≠ .shuttingDown value := by
  obtain ⟨-, hanswer⟩ | ⟨result, hanswer⟩ | hanswer := callAnswer_cases client call move events <;>
    simp [hanswer]

theorem callAnswer_ne_packet {client : Client} (hsession : client.session ≠ .readLocked)
    (call move : SessionMove) (events : List ClientEvent) (packet : Packet) :
    client.callAnswer call move events ≠ .read (some packet) := by
  obtain ⟨-, hanswer⟩ | ⟨result, hanswer⟩ | hanswer :=
    callAnswer_cases client call move events
  · simp [hanswer, readResult_eq_none hsession]
  · simp [hanswer]
  · simp [hanswer]

theorem readPacket_pc {run : RunSession} (h : run.connectionCall = some .readPacket) :
    (∃ deadline, run.pc = .awaitingResponse deadline)
      ∨ ∃ coalesced, run.pc = .draining coalesced := by
  unfold RunSession.connectionCall at h
  cases hpc : run.pc with
  | awaitingResponse deadline => exact .inl ⟨deadline, rfl⟩
  | draining coalesced => exact .inr ⟨coalesced, rfl⟩
  | _ => simp [hpc] at h

/-- While the reader is cut only the wait for `INITIAL_RESPONSE` reads. -/
theorem Attended.awaiting (h : Attended s before) (hread : s.client.session = .readLocked)
    (hcut : s.client.shared.readerSocket = none) :
    ∃ deadline, s.run.pc = .awaitingResponse deadline := by
  rcases readPacket_pc (h.reading hread) with hawaiting | ⟨coalesced, hpc⟩
  · exact hawaiting
  · have halive := h.draining (by rw [hpc]; exact trivial) (.inr hread)
    have hsocket := ((h.consistent.outside (by rw [hread]; exact trivial)).2.alive halive).1
    rw [hcut] at hsocket
    exact absurd hsocket (by simp)

theorem Attended.queued_read (h : Attended s before) {call move : SessionMove} {client : Client}
    {events : List ClientEvent} {run : RunSession} {out : List RunEvent}
    (hread : s.client.session = .readLocked) (hcall : s.run.connectionCall = some call)
    (hstep : clientMachine s.client (.session move) = some (client, events))
    (hidle : client.session = .idle) (hcut : client.shared.readerSocket = none)
    (hrun : runMachine memory s.run (s.client.callAnswer call move events) = some (run, out)) :
    client.localBuffer.length = (out.map LiveEvent.run).foldl remaining
      (leftQueued (before ++ (events.map .client ++ s.client.queueEvents move))) := by
  obtain ⟨incoming, results, rfl, rfl⟩ := readLocked_step hread hstep
  have hshown := (readStep_returns hread hidle).1
  rw [(s.client.readStep_shared incoming results).1] at hcut
  obtain ⟨deadline, hpc⟩ := h.awaiting hread hcut
  obtain rfl : .readPacket = call := Option.some.inj ((h.reading hread).symm.trans hcall)
  simp only [runMachine, hpc, callAnswer, runStep, Option.some.injEq, Prod.mk.injEq] at hrun
  obtain ⟨-, rfl⟩ := hrun
  rw [foldl_responded, hshown, List.append_nil, leftQueued_append, foldl_client,
    ← h.queued hcut (by rw [hread]; exact id)]
  exact readStep_localBuffer hread hcut hidle

theorem Attended.returns (h : Attended s before) {call move : SessionMove} {client : Client}
    {events : List ClientEvent} {run : RunSession} {out : List RunEvent} (hcalling : s.calling = true)
    (hcall : s.run.connectionCall = some call)
    (hstep : clientMachine s.client (.session move) = some (client, events))
    (hidle : client.session = .idle)
    (hrun : runMachine memory s.run (s.client.callAnswer call move events) = some (run, out)) :
    Attended { client, run, calling := false }
      (before ++ (events.map .client ++ s.client.queueEvents move ++ out.map .run)) := by
  obtain ⟨hconsistent, hsevered, hunlocked⟩ := h.inside hcalling hstep
  have hown := callAnswer_ne_own s.client call move events
  refine ⟨hconsistent, hsevered, fun _ => hidle, by simp, fun hread => absurd hread hunlocked,
    fun hdraining _ => ?_, fun hcut hbefore => ?_, fun hended => ?_⟩
  · obtain hanswer | ⟨hbefore, ⟨t, hanswer⟩ | ⟨packet, hanswer⟩⟩ :=
      RunSession.draining_of_step hrun hdraining
    · exact absurd hanswer (hown.1 true)
    · exact absurd hanswer (hown.2.1 t)
    · by_cases hread : s.client.session = .readLocked
      · obtain ⟨incoming, results, rfl, rfl⟩ := readLocked_step hread hstep
        rw [(s.client.readStep_shared incoming results).2.1]
        exact h.draining hbefore (.inr hread)
      · exact absurd hanswer (callAnswer_ne_packet hread call move events packet)
  · rw [← List.append_assoc, leftQueued_append]
    by_cases hread : s.client.session = .readLocked
    · exact h.queued_read hread hcall hstep hidle hcut hrun
    · rw [foldl_run (RunSession.not_responded hrun (callAnswer_ne_packet hread call move events))]
      exact h.queued_inside hread hstep hcut hbefore
  · simp only [List.mem_append] at hended
    obtain hended | ⟨hended | hended⟩ | hended := hended
    · exact absurd hended (h.not_ended hcalling)
    · exact absurd hended (run_not_mem_client _ _)
    · exact absurd hended (run_not_mem_queueEvents _ _ _)
    · obtain ⟨event, hmem, hevent⟩ := List.mem_map.mp hended
      obtain rfl := LiveEvent.run.inj hevent
      exact absurd (RunSession.ended_answer hrun hmem).1 (hown.2.2 true)

theorem Attended.own (h : Attended s before) {answer : RunAnswer} {run : RunSession}
    {out : List RunEvent} (hcalling : s.calling = false) (hshows : s.client.Shows answer = true)
    (hrun : runMachine memory s.run answer = some (run, out)) :
    Attended { s with run } (before ++ out.map .run) := by
  have hidle := h.idle hcalling
  refine ⟨h.consistent, h.severed, h.idle, h.busy, fun hread => ?_, fun hdraining hsession => ?_,
    fun hcut hbefore => ?_, fun hended => ?_⟩
  · rw [hidle] at hread
    exact absurd hread (by simp)
  · obtain rfl | ⟨hbefore, -⟩ := RunSession.draining_of_step hrun hdraining
    · simpa [Shows] using hshows
    · exact h.draining hbefore hsession
  · rw [leftQueued_append, foldl_run (RunSession.not_responded hrun ?_)]
    · exact h.queued hcut hbefore
    · rintro packet rfl
      simp [Shows] at hshows
  · rcases List.mem_append.mp hended with hended | hended
    · obtain ⟨result, hpc⟩ := (h.ended hended).2.2
      exact absurd hpc (RunSession.not_returned_of_step hrun result)
    · obtain ⟨event, hmem, hevent⟩ := List.mem_map.mp hended
      obtain rfl := LiveEvent.run.inj hevent
      obtain ⟨rfl, hpc⟩ := RunSession.ended_answer hrun hmem
      exact ⟨by simpa [Shows] using hshows, hcalling, _, hpc⟩

theorem Attended.step (h : Attended s before) {action : LiveAction} {next : LiveSession}
    {events : List LiveEvent} (hstep : liveMachine memory s action = some (next, events)) :
    Attended next (before ++ events) := by
  cases liveStep_spec hstep with
  | thread hclient => exact h.thread hclient
  | calls hcalling hcall hclient => exact h.calls hcalling hcall hclient
  | continues hcalling hcall hclient hbusy => exact h.continues hcalling hclient hbusy
  | returns hcalling hcall hclient hidle hrun => exact h.returns hcalling hcall hclient hidle hrun
  | own hcalling hshows hrun => exact h.own hcalling hshows hrun

/-- The position of the reader is what was returned and what was thrown away. -/
def Counted (s : LiveSession) (events : List LiveEvent) : Prop :=
  s.client.position = (received events).length + discards events

theorem position_of_thread {client : Client} {index : Nat} {pc : ReconnectPc} {out : ReconnectOutput}
    (h : Reconnects client.shared pc out) : (client.stepped index out).position = client.position := by
  cases h with
  | revivesReader =>
      simp only [Client.position, stepped]
      cases client.shared.reader with
      | none => rfl
      | some reader => exact reader.position_revive _ _
  | _ => rfl

theorem Counted.step (h : Counted s before) (hattended : Attended s before) {action : LiveAction}
    {next : LiveSession} {events : List LiveEvent}
    (hstep : liveMachine memory s action = some (next, events)) : Counted next (before ++ events) := by
  have hqueueEvents : ∀ {move client}, QueueStep s.client client (s.client.queueEvents move) →
      discards (s.client.queueEvents move) = 0 := by
    intro move client hqueue
    generalize s.client.queueEvents move = shown at hqueue
    cases hqueue <;> rfl
  unfold Counted at h ⊢
  cases liveStep_spec hstep with
  | thread hclient =>
      obtain ⟨pc, out, hpc, hreconnects, rfl, -⟩ := threadStep_eq_some hclient
      simp [position_of_thread hreconnects, h]
  | @calls call client events hcalling hcall hclient =>
      have hsteps := sessionStep_spec hclient
      rw [hattended.idle hcalling] at hsteps
      have hsame : client.position = s.client.position :=
        position_congr (by cases hsteps <;> rfl)
      simp [hsame, h]
  | @continues call move client events hcalling hcall hclient hbusy =>
      by_cases hread : s.client.session = .readLocked
      · obtain ⟨incoming, results, rfl, rfl⟩ := readLocked_step hread hclient
        simp [readStep_fails hread hbusy, h]
        omega
      · have hqueue := queue_step hread hattended.severed.noShutdown (sessionStep_spec hclient)
        simp [hqueue.position, hqueueEvents hqueue, h]
  | @returns call move client events run out hcalling hcall hclient hidle hrun =>
      have hreceived := RunSession.received_of_step hrun
      by_cases hread : s.client.session = .readLocked
      · obtain ⟨incoming, results, rfl, rfl⟩ := readLocked_step hread hclient
        obtain rfl : .readPacket = call := Option.some.inj ((hattended.reading hread).symm.trans hcall)
        obtain ⟨hshown, hposition⟩ := readStep_returns hread hidle
        simp [hshown, hposition, hreceived, callAnswer, RunAnswer.packets, h]
        omega
      · have hqueue := queue_step hread hattended.severed.noShutdown (sessionStep_spec hclient)
        have hnone : (s.client.callAnswer call move events).packets = [] := by
          obtain ⟨-, hanswer⟩ | ⟨result, hanswer⟩ | hanswer :=
            callAnswer_cases s.client call move events
          · rw [hanswer, readResult_eq_none hread]
            rfl
          · rw [hanswer]
            rfl
          · rw [hanswer]
            rfl
        simp [hqueue.position, hqueueEvents hqueue, hreceived, hnone, h]
  | @own answer run out hcalling hshows hrun =>
      have hreceived := RunSession.received_of_step hrun
      have hnone : answer.packets = [] := by
        cases answer with
        | read packet => simp [Shows] at hshows
        | _ => rfl
      simp [hreceived, hnone, h]

theorem run_mem_of_filterMap {event : RunEvent} {events : List LiveEvent}
    (h : event ∈ events.filterMap run?) : .run event ∈ events := by
  obtain ⟨event', hmem, hevent⟩ := List.mem_filterMap.mp h
  cases event' with
  | run event' =>
      obtain rfl := Option.some.inj hevent
      exact hmem
  | _ => exact absurd hevent (by simp [run?])

end LiveSession

open LiveEvent

/-- **The last output.** When the main loop has ended because the client is shutting down, the queue is
empty if and only if the last cut found it empty or the wait for `INITIAL_RESPONSE` has read what it
found; and all counted packets have been returned if and only if, besides, every entry opened. -/
theorem local_buffer_drained_iff {memory : Memory} {opts : ClientOptions}
    {readerCrypto writerCrypto : CryptoHandler} {actions : List LiveAction} {s : LiveSession}
    {events : List LiveEvent}
    (hrun : (liveMachine memory).run (LiveSession.start opts readerCrypto writerCrypto) actions =
      some (s, events)) (hended : .run .ended ∈ events) :
    (s.client.localBuffer = [] ↔ leftQueued events = 0)
      ∧ ∀ reader, s.client.shared.reader = some reader →
        (reader.sequenceNumber = (received events).length
          ↔ leftQueued events = 0 ∧ discards events = 0) := by
  obtain ⟨hattended, hcounted⟩ : s.Attended events ∧ s.Counted events :=
    (liveMachine memory).run_invariant (I := fun s events => s.Attended events ∧ s.Counted events)
      (fun hs hstep => ⟨hs.1.step hstep, hs.2.step hs.1 hstep⟩) []
      ⟨LiveSession.start_attended opts readerCrypto writerCrypto, rfl⟩ hrun
  obtain ⟨hshut, hcalling, -⟩ := hattended.ended hended
  have hcut := (hattended.severed.shut hshut).1
  have hqueued := hattended.queued hcut (by rw [hattended.idle hcalling]; exact id)
  refine ⟨by rw [← hqueued, List.length_eq_zero_iff], fun reader hreader => ?_⟩
  simp only [Client.localBuffer, hreader] at hqueued
  simp only [LiveSession.Counted, Client.position, hreader, BackedReader.position, hqueued] at hcounted
  omega

/-- The connection breaks while the loop drains, and the thread revives the reader with one entry. The next
round reads it before the connection breaks again and the server answers with `InvalidKey`. -/
theorem local_buffer_drained_iff_entry_read :
    let memory : Memory := fun len => len ≤ maxProtoBytes
    let crypto : CryptoHandler := ⟨tagCipher, .start serverClientNonceMsb⟩
    let sealed (crypto : CryptoHandler) (packet : Packet) : Bytes :=
      match packet.encrypt crypto with
      | (.ok stored, _) => stored.serialize
      | (.error _, _) => []
    let response := frame (sealed crypto (Packet.new EtPacket.initialResponse []))
    let entry := sealed crypto.incrementNonce (bufferPacket [0x68, 0x69])
    let establish : List LiveAction :=
      [.call, .inside .step, .inside (.write [.ok 64]), .own (.now 0), .own (.now 0), .call,
        .inside (.read response [.ok 4, .ok 64]), .own (.opened (.ok ())), .own (.now 0)]
    let breaks : List LiveAction :=
      [.call, .inside (.read [] [.ok 0]), .inside .step, .inside .step, .inside .step, .inside .step,
        .inside .step, .inside .step]
    let head : List LiveAction :=
      [.own (.shuttingDown false), .own (.shutdown false), .own (.hasSocket true)]
    let recover : List LiveAction :=
      [.thread 0 .done, .thread 0 .done, .thread 0 .done, .thread 0 .done,
        .thread 0 (.response { status := some .returningClient, error := none }), .thread 0 .done,
        .thread 0 .done, .thread 0 (.sequence { sequenceNumber := some 1 }), .thread 0 .done,
        .thread 0 .done, .thread 0 (.catchup { buffer := [entry] }), .thread 0 .done,
        .thread 0 .done, .thread 0 .done, .thread 0 .done]
    let drain : List LiveAction :=
      [.own (.now 0), .own (.input (.ok none)), .own (.size {})] ++ head
        ++ [.call, .inside (.read [] []), .own (.now 0)]
    let reject : List LiveAction :=
      [.thread 1 .done, .thread 1 .done, .thread 1 .done, .thread 1 .done,
        .thread 1 (.response { status := some .invalidKey, error := none }), .thread 1 .done]
    let finish : List LiveAction :=
      [.inside .step, .own (.shown (.ok ())), .own (.now 0), .own (.input (.ok none)), .own (.size {}),
        .own (.shuttingDown true)]
    ∃ revived before s events,
      (liveMachine memory).run (LiveSession.start {} crypto crypto)
          (establish ++ head ++ breaks ++ recover) = some (revived, before)
        ∧ revived.client.localBuffer = [entry]
        ∧ (liveMachine memory).run revived (drain ++ breaks ++ reject ++ finish) = some (s, events)
        ∧ s.client.localBuffer = []
        ∧ received (before ++ events) =
          [Packet.new EtPacket.initialResponse [], bufferPacket [0x68, 0x69]]
        ∧ ∀ reader, s.client.shared.reader = some reader → reader.sequenceNumber = 2 := by
  intro memory crypto sealed response entry establish breaks head recover drain reject finish
  have hqueued : ((liveMachine memory).run (LiveSession.start {} crypto crypto)
      (establish ++ head ++ breaks ++ recover)).map (fun out => out.1.client.localBuffer) =
        some [entry] := by
    decide +kernel
  have hran : ((liveMachine memory).run (LiveSession.start {} crypto crypto)
      (establish ++ head ++ breaks ++ recover ++ (drain ++ breaks ++ reject ++ finish))).map (fun out =>
        (decide (.ended ∈ out.2.filterMap run?), leftQueued out.2, discards out.2, received out.2)) =
      some (true, 0, 0, [Packet.new EtPacket.initialResponse [], bufferPacket [0x68, 0x69]]) := by
    decide +kernel
  obtain ⟨⟨s, all⟩, hrun, hout⟩ := Option.map_eq_some_iff.mp hran
  obtain ⟨revived, before, events, hbefore, hafter, rfl⟩ :=
    (liveMachine memory).run_append_eq_some.mp hrun
  simp only [Prod.mk.injEq] at hout
  obtain ⟨hended, hleft, hdiscards, hreceived⟩ := hout
  have hmem := LiveSession.run_mem_of_filterMap (of_decide_eq_true hended)
  obtain ⟨hempty, hcounted⟩ := local_buffer_drained_iff hrun hmem
  rw [hbefore] at hqueued
  refine ⟨revived, before, s, events, hbefore, Option.some.inj hqueued, hafter, hempty.mpr hleft,
    hreceived, fun reader hreader => ?_⟩
  rw [(hcounted reader hreader).mpr ⟨hleft, hdiscards⟩, hreceived]
  rfl

/-- The connection breaks while the loop drains, and the thread revives the reader with one entry while
the loop waits for input. The write of the input breaks the connection again before the entry is read,
and the server answers the next attempt with `InvalidKey`: the entry is counted and never returned. -/
theorem queued_entry_lost :
    let memory : Memory := fun len => len ≤ maxProtoBytes
    let crypto : CryptoHandler := ⟨tagCipher, .start serverClientNonceMsb⟩
    let sealed (crypto : CryptoHandler) (packet : Packet) : Bytes :=
      match packet.encrypt crypto with
      | (.ok stored, _) => stored.serialize
      | (.error _, _) => []
    let response := frame (sealed crypto (Packet.new EtPacket.initialResponse []))
    let entry := sealed crypto.incrementNonce (bufferPacket [0x68, 0x69])
    let establish : List LiveAction :=
      [.call, .inside .step, .inside (.write [.ok 64]), .own (.now 0), .own (.now 0), .call,
        .inside (.read response [.ok 4, .ok 64]), .own (.opened (.ok ())), .own (.now 0)]
    let breakDown : List LiveAction :=
      [.own (.shuttingDown false), .own (.shutdown false), .own (.hasSocket true), .call,
        .inside (.read [] [.ok 0]), .inside .step, .inside .step, .inside .step, .inside .step,
        .inside .step, .inside .step, .own (.now 0)]
    let recover : List LiveAction :=
      [.thread 0 .done, .thread 0 .done, .thread 0 .done, .thread 0 .done,
        .thread 0 (.response { status := some .returningClient, error := none }), .thread 0 .done,
        .thread 0 .done, .thread 0 (.sequence { sequenceNumber := some 1 }), .thread 0 .done,
        .thread 0 .done, .thread 0 (.catchup { buffer := [entry] }), .thread 0 .done,
        .thread 0 .done, .thread 0 .done, .thread 0 .done]
    let input : List LiveAction :=
      [.own (.input (.ok (some [0x0d]))), .call, .inside .step, .inside (.write []), .inside .step,
        .inside .step, .inside .step, .inside .step, .inside .step, .inside .step, .inside .step]
    let reject : List LiveAction :=
      [.thread 1 .done, .thread 1 .done, .thread 1 .done, .thread 1 .done,
        .thread 1 (.response { status := some .invalidKey, error := none }), .thread 1 .done]
    let finish : List LiveAction :=
      [.inside .step, .own (.now 0), .own (.size {}), .own (.shuttingDown true)]
    ∃ s events,
      (liveMachine memory).run (LiveSession.start {} crypto crypto)
          (establish ++ breakDown ++ recover ++ input ++ reject ++ finish) = some (s, events)
        ∧ .run .ended ∈ events
        ∧ s.client.localBuffer = [entry]
        ∧ s.client.shared.reader.map BackedReader.sequenceNumber = some 2
        ∧ received events = [Packet.new EtPacket.initialResponse []] := by
  intro memory crypto sealed response entry establish breakDown recover input reject finish
  have hran : ((liveMachine memory).run (LiveSession.start {} crypto crypto)
      (establish ++ breakDown ++ recover ++ input ++ reject ++ finish)).map (fun out =>
        (decide (.ended ∈ out.2.filterMap run?), out.1.client.localBuffer,
          out.1.client.shared.reader.map BackedReader.sequenceNumber, received out.2)) =
      some (true, [entry], some 2, [Packet.new EtPacket.initialResponse []]) := by
    decide +kernel
  obtain ⟨⟨s, events⟩, hrun, hout⟩ := Option.map_eq_some_iff.mp hran
  obtain ⟨hended, hout⟩ := Prod.mk.inj hout
  obtain ⟨hqueue, hout⟩ := Prod.mk.inj hout
  obtain ⟨hsequence, hreceived⟩ := Prod.mk.inj hout
  have hmem := LiveSession.run_mem_of_filterMap (of_decide_eq_true hended)
  exact ⟨s, events, hrun, hmem, hqueue, hsequence, hreceived⟩

end EternalTerminal
