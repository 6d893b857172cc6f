import EternalTerminal.Proof.ReaderRun
import EternalTerminal.Session.LiveSession

/-!
# The queue of catch-up entries

A catch-up entry is counted as received when the reader is revived, and it leaves the queue when a later
read returns it or fails to open it. A cut of the connection takes the socket and leaves the queue.
-/

namespace EternalTerminal

namespace BackedReader

theorem position_of_ok {reader : BackedReader} {incoming : Bytes} {results : List IoResult}
    {packet : Option Packet} (h : (reader.read incoming results).result = .ok packet) :
    (reader.read incoming results).reader.position = reader.position + packet.toList.length := by
  have hreads := reader.read_spec incoming results
  generalize reader.read incoming results = out at h hreads ⊢
  cases hreads with
  | @queued serialized rest hqueue =>
      simp only [readQueued] at h ⊢
      split at h <;> simp only [Except.ok.injEq, reduceCtorEq] at h
      subst h
      simp [position, hqueue]
      omega
  | idle hqueue hsocket =>
      obtain rfl := Except.ok.inj h
      simp
  | stopped hqueue hsocket hcompleted hresult hbuffer hframe =>
      obtain hnone | ⟨e, herror, -⟩ := hresult
      · rw [hnone] at h
        obtain rfl := Except.ok.inj h
        simp [position]
      · rw [herror] at h
        exact absurd h (by simp)
  | framed hqueue hsocket hcompleted hbuffer hholds hexact hserialized =>
      simp only [readFrame] at h ⊢
      split at h <;> simp only [Except.ok.injEq, reduceCtorEq] at h
      subst h
      simp [position]
      omega

/-- A read that fails moves the position if it took an entry off the queue. -/
theorem position_of_error {reader : BackedReader} {incoming : Bytes} {results : List IoResult}
    {e : Error} (h : (reader.read incoming results).result = .error e) :
    (reader.read incoming results).reader.position =
      reader.position + if reader.localBuffer = [] then 0 else 1 := by
  have hreads := reader.read_spec incoming results
  generalize reader.read incoming results = out at h hreads ⊢
  cases hreads with
  | @queued serialized rest hqueue =>
      simp only [readQueued] at h ⊢
      split at h <;> simp only [reduceCtorEq] at h
      simp [position, hqueue]
      omega
  | idle hqueue hsocket => exact absurd h (by simp)
  | stopped hqueue hsocket hcompleted hresult hbuffer hframe => simp [position, hqueue]
  | framed hqueue hsocket hcompleted hbuffer hholds hexact hserialized =>
      simp only [readFrame] at h ⊢
      split at h <;> simp only [reduceCtorEq] at h
      simp [position, hqueue]

end BackedReader

namespace Client

variable {client next : Client}

def position (client : Client) : Int :=
  match client.shared.reader with
  | some reader => reader.position
  | none => 0

theorem localBuffer_congr (h : next.shared.reader = client.shared.reader) :
    next.localBuffer = client.localBuffer := by
  rw [localBuffer, localBuffer, h]

theorem position_congr (h : next.shared.reader = client.shared.reader) :
    next.position = client.position := by
  rw [position, position, h]

theorem readerSocket_congr (h : next.shared.reader = client.shared.reader) :
    next.shared.readerSocket = client.shared.readerSocket := by
  rw [Shared.readerSocket, Shared.readerSocket, h]

/-- `close_and_maybe_reconnect` has not yet taken the reader's socket. -/
def BeforeCut : SessionPc → Prop
  | .closing .takeHandle _ => True
  | .closing (.joining _) _ => True
  | .closing .invalidateReader _ => True
  | _ => False

/-- How a step inside a call, other than that of `read_packet`, treats the reader. -/
inductive QueueStep (client next : Client) : List LiveEvent → Prop
  | keeps : next.shared.reader = client.shared.reader →
      (BeforeCut client.session → BeforeCut next.session) → QueueStep client next []
  | cuts : next.shared.reader = client.shared.reader.map BackedReader.invalidateSocket →
      QueueStep client next [.cut client.localBuffer.length]

theorem QueueStep.position {events : List LiveEvent} (h : QueueStep client next events) :
    next.position = client.position := by
  cases h with
  | keeps hreader hbefore => exact position_congr hreader
  | cuts hreader =>
      unfold Client.position
      rw [hreader]
      cases client.shared.reader <;> rfl

theorem closeStep_queue {caller : Caller} {stage : CloseStage} (move : SessionMove)
    (hsession : client.session = .closing stage caller)
    (hstep : client.closeStep caller stage = some next) :
    QueueStep client next (client.queueEvents move) := by
  cases stage with
  | takeHandle =>
      simp only [closeStep] at hstep
      simp only [queueEvents, hsession]
      split at hstep <;> obtain rfl := Option.some.inj hstep
      · exact .keeps rfl fun _ => trivial
      · exact .keeps rfl fun _ => trivial
  | joining thread =>
      simp only [closeStep] at hstep
      simp only [queueEvents, hsession]
      split_ifs at hstep
      obtain rfl := Option.some.inj hstep
      exact .keeps rfl fun _ => trivial
  | invalidateReader =>
      obtain rfl := Option.some.inj hstep
      simp only [queueEvents, hsession]
      exact .cuts rfl
  | maybeSpawn =>
      simp only [closeStep] at hstep
      simp only [queueEvents, hsession]
      split_ifs at hstep <;> obtain rfl := Option.some.inj hstep
      · exact .keeps rfl (by rw [hsession]; exact False.elim)
      · exact .keeps rfl (by rw [hsession]; exact False.elim)
  | _ =>
      obtain rfl := Option.some.inj hstep
      simp only [queueEvents, hsession]
      exact .keeps rfl (by rw [hsession]; exact False.elim)

theorem queue_step {move : SessionMove} {events : List ClientEvent}
    (hread : client.session ≠ .readLocked) (hshutdown : ∀ stage, client.session ≠ .shutdown stage)
    (hstep : SessionSteps client client.session move next events) :
    QueueStep client next (client.queueEvents move) := by
  have hquiet : (∀ stage caller, client.session ≠ .closing stage caller) →
      next.shared.reader = client.shared.reader → QueueStep client next (client.queueEvents move) := by
    intro houtside hreader
    have hevents : client.queueEvents move = [] := by
      unfold queueEvents
      split
      · next hsession => exact absurd hsession (houtside _ _)
      · next hsession => exact absurd hsession hread
      · rfl
    rw [hevents]
    refine .keeps hreader fun hbefore => ?_
    cases hsession : client.session with
    | closing stage caller => exact absurd hsession (houtside stage caller)
    | _ =>
        rw [hsession] at hbefore
        exact absurd hbefore id
  generalize hsession : client.session = session at hread hshutdown hquiet hstep
  cases hstep with
  | closing hclose => exact closeStep_queue _ hsession hclose
  | shutdown hshut => exact absurd rfl (hshutdown _)
  | noReader hreader => exact absurd rfl hread
  | read hreader hreads hnext => exact absurd rfl hread
  | _ => exact hquiet (by simp) rfl

/-! ### What `read_packet` takes -/

theorem readLocked_step {move : SessionMove} {events : List ClientEvent}
    (hsession : client.session = .readLocked)
    (hstep : clientMachine client (.session move) = some (next, events)) :
    ∃ incoming results, move = .read incoming results ∧ next = client.readStep incoming results := by
  simp only [clientMachine, hsession] at hstep
  cases move <;> simp only [sessionStep, Option.some.injEq, Prod.mk.injEq, reduceCtorEq] at hstep
  exact ⟨_, _, rfl, hstep.1.symm⟩

theorem readStep_shared (client : Client) (incoming : Bytes) (results : List IoResult) :
    (client.readStep incoming results).shared.readerSocket = client.shared.readerSocket
      ∧ (client.readStep incoming results).shared.socketAlive = client.shared.socketAlive
      ∧ ((client.readStep incoming results).session = .idle
        ∨ (client.readStep incoming results).session = .closing .takeHandle .other) := by
  have hsteps := client.readStep_spec incoming results
  generalize client.readStep incoming results = next at hsteps ⊢
  cases hsteps with
  | noReader hreader => exact ⟨rfl, rfl, .inl rfl⟩
  | read hreader hreads hsession =>
      refine ⟨?_, rfl, hsession⟩
      simp only [Shared.readerSocket, hreader, Option.bind_some]
      exact hreads.socket_eq

/-- Without a socket a `read_packet` that does not fail returns the oldest entry, if there is one. -/
theorem readStep_localBuffer {incoming : Bytes} {results : List IoResult}
    (hsession : client.session = .readLocked) (hcut : client.shared.readerSocket = none)
    (hidle : (client.readStep incoming results).session = .idle) :
    (client.readStep incoming results).localBuffer.length =
      client.localBuffer.length
        - (client.readResult (.read incoming results)).toList.length := by
  rcases hreader : client.shared.reader with _ | reader
  · simp [readStep, readResult, localBuffer, hsession, hreader]
  · have hsocket : reader.socket = none := by simpa [Shared.readerSocket, hreader] using hcut
    cases hqueue : reader.localBuffer with
    | nil =>
        simp [readStep, readResult, localBuffer, BackedReader.read, hsession, hreader, hqueue,
          hsocket]
    | cons serialized rest =>
        rcases hopen : openPacket serialized reader.crypto with ⟨e | packet, crypto⟩
        · simp [readStep, BackedReader.read, BackedReader.readQueued, hreader, hqueue, hopen] at hidle
        · simp [readStep, readResult, localBuffer, BackedReader.read, BackedReader.readQueued, hsession,
            hreader, hqueue, hopen]

end Client

namespace LiveEvent

/-- How many entries of the queue are left after an event. -/
def remaining (queued : Nat) : LiveEvent → Nat
  | .cut queued => queued
  | .run (.responded _) => queued - 1
  | _ => queued

/-- How many entries the last cut found queued, less what the wait for `INITIAL_RESPONSE` read since. -/
def leftQueued (events : List LiveEvent) : Nat := events.foldl remaining 0

/-- A packet that `read_packet` returned. -/
def received? : LiveEvent → Option Packet
  | .run (.responded packet) => some packet
  | .run (.read packet) => some packet
  | _ => none

def received (events : List LiveEvent) : List Packet := events.filterMap received?

def isDiscarded : LiveEvent → Bool
  | .discarded => true
  | _ => false

/-- How many entries left the queue without being returned. -/
def discards (events : List LiveEvent) : Nat := events.countP isDiscarded

theorem leftQueued_append (before after : List LiveEvent) :
    leftQueued (before ++ after) = after.foldl remaining (leftQueued before) := by
  exact List.foldl_append

@[simp] theorem received_append (before after : List LiveEvent) :
    received (before ++ after) = received before ++ received after := by
  exact List.filterMap_append

@[simp] theorem discards_append (before after : List LiveEvent) :
    discards (before ++ after) = discards before + discards after := by
  exact List.countP_append

theorem foldl_client (events : List ClientEvent) (queued : Nat) :
    (events.map LiveEvent.client).foldl remaining queued = queued := by
  induction events with
  | nil => rfl
  | cons event events ih => exact ih

@[simp] theorem received_client (events : List ClientEvent) :
    received (events.map LiveEvent.client) = [] := by
  simp [received, received?, List.filterMap_eq_nil_iff]

@[simp] theorem discards_client (events : List ClientEvent) :
    discards (events.map LiveEvent.client) = 0 := by
  simp [discards, isDiscarded, List.countP_eq_zero]

@[simp] theorem discards_run (events : List RunEvent) :
    discards (events.map LiveEvent.run) = 0 := by
  simp [discards, isDiscarded, List.countP_eq_zero]

@[simp] theorem received_queueEvents (client : Client) (move : SessionMove) :
    received (client.queueEvents move) = [] := by
  rcases queueEvents_cases client move with h | h | h <;> rw [h] <;> rfl

theorem foldl_run {events : List RunEvent} (h : ∀ packet, .responded packet ∉ events)
    (queued : Nat) : (events.map LiveEvent.run).foldl remaining queued = queued := by
  induction events with
  | nil => rfl
  | cons event events ih =>
      have hsame : remaining queued (.run event) = queued := by
        cases event with
        | responded packet => exact absurd List.mem_cons_self (h packet)
        | _ => rfl
      rw [List.map_cons, List.foldl_cons, hsame]
      exact ih fun packet hmem => h packet (List.mem_cons_of_mem event hmem)

theorem foldl_responded (packet : Option Packet) (queued : Nat) :
    ((packet.toList.map RunEvent.responded).map LiveEvent.run).foldl remaining queued =
      queued - packet.toList.length := by
  cases packet <;> rfl

theorem run_not_mem_client (event : RunEvent) (events : List ClientEvent) :
    .run event ∉ events.map LiveEvent.client := by
  simp

theorem run_not_mem_queueEvents (event : RunEvent) (client : Client) (move : SessionMove) :
    .run event ∉ client.queueEvents move := by
  rcases queueEvents_cases client move with h | h | h <;> simp [h]

end LiveEvent

namespace Client

open LiveEvent

variable {client : Client} {incoming : Bytes} {results : List IoResult}

theorem readStep_returns (hsession : client.session = .readLocked)
    (hidle : (client.readStep incoming results).session = .idle) :
    client.queueEvents (.read incoming results) = []
      ∧ (client.readStep incoming results).position =
        client.position + (client.readResult (.read incoming results)).toList.length := by
  rcases hreader : client.shared.reader with _ | reader
  · simp [readStep, readResult, queueEvents, position, hsession, hreader]
  · rcases hresult : (reader.read incoming results).result with e | packet
    · simp [readStep, hreader, hresult] at hidle
    · simp [readStep, readResult, queueEvents, position, hsession, hreader, hresult,
        BackedReader.position_of_ok hresult]

theorem readStep_fails (hsession : client.session = .readLocked)
    (hbusy : (client.readStep incoming results).session ≠ .idle) :
    (client.readStep incoming results).position =
      client.position + discards (client.queueEvents (.read incoming results)) := by
  rcases hreader : client.shared.reader with _ | reader
  · simp [readStep, hreader] at hbusy
  · rcases hresult : (reader.read incoming results).result with e | packet
    · have hposition := BackedReader.position_of_error hresult
      cases hqueue : reader.localBuffer with
      | nil =>
          simp [readStep, queueEvents, position, hsession, hreader, hresult, hqueue, hposition, discards]
      | cons serialized rest =>
          simp [readStep, queueEvents, position, hsession, hreader, hresult, hqueue, hposition, discards,
            isDiscarded]
    · simp [readStep, hreader, hresult] at hbusy

end Client

end EternalTerminal
