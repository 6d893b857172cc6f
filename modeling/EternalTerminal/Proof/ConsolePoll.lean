import EternalTerminal.Library.Progress
import EternalTerminal.Terminal.ConsoleInput

/-!
# What a poll does with the queue of the console

Each record is discarded, read or still there, in its order, and no key is among those discarded. Neither
of the calls that take a record waits for one. A key that is there when the poll begins is read without
a wait, whatever is queued before it.
-/

namespace EternalTerminal

namespace InputRecord

variable {record : InputRecord}

theorem isKeyDown_eq_false (h : record.drain = true) : record.isKeyDown = false := by
  unfold isKeyDown
  split_ifs with hkey
  · rfl
  · have hkey' : record.eventType = keyEvent := not_not.mp hkey
    simpa [drain, hkey', keyEvent, mouseEvent, focusEvent, menuEvent, windowBufferSizeEvent] using h

theorem drain_eq_false (h : record.isKeyDown = true) : record.drain = false := by
  by_contra hdrain
  rw [Bool.not_eq_false] at hdrain
  rw [isKeyDown_eq_false hdrain] at h
  cases h

end InputRecord

namespace PollEvent

def discarded? : PollEvent → Option InputRecord
  | .discarded record => some record
  | _ => none

/-- The records that `ReadFile` made its bytes of. -/
def taken : PollEvent → List InputRecord
  | .read records _ => records
  | _ => []

def appended : PollEvent → List InputRecord
  | .arrived records => records
  | _ => []

def bytes? : PollEvent → Option Bytes
  | .read _ bytes => some bytes
  | _ => none

end PollEvent

/-- What the poll has seen when it is about to make a call: the call does not wait, or not for longer
than the poll may. -/
def Poll.Ready (poll : Poll) : PollPc → Prop
  | .discarding => ∃ record rest, poll.queue = record :: rest ∧ record.drain
  | .reading => ∃ record rest, poll.queue = record :: rest ∧ record.isKeyDown
  | .waiting ms => poll.clock < poll.deadline ∧ poll.clock + ms * 1000000 ≤ poll.deadline
  | _ => True

theorem wait_le_deadline {clock deadline : Nat} (h : clock < deadline) :
    clock + Poll.waitMillis (deadline - clock) * 1000000 ≤ deadline := by
  have hmillis : Poll.waitMillis (deadline - clock) ≤ (deadline - clock) / 1000000 := Nat.min_le_left _ _
  have hwhole : (deadline - clock) / 1000000 * 1000000 ≤ deadline - clock := Nat.div_mul_le_self _ _
  have hwait := (Nat.mul_le_mul_right 1000000 hmillis).trans hwhole
  omega

/-- Whether the call returns. -/
def PollPc.result? : PollPc → Option (Except Error (Option Bytes))
  | .returned result => some result
  | _ => none

/-- What a call does. -/
inductive Polls (poll : Poll) : PollAnswer → Poll → List PollEvent → Prop
  | arrives (records : List InputRecord) :
      Polls poll (.arrives records) { poll with queue := poll.queue ++ records } [.arrived records]
  | peeks (hpc : poll.pc = .peeking) (pc : PollPc) (hready : poll.Ready pc)
      (hnext : pc = .discarding ∨ pc = .peekingKey
        ∧ ∀ record rest, poll.queue = record :: rest → record.drain = false) :
      Polls poll .done { poll with pc := pc } []
  | discards (hpc : poll.pc = .discarding) (record : InputRecord) (rest : List InputRecord)
      (hqueue : poll.queue = record :: rest) :
      Polls poll .done { poll with pc := .peeking, queue := rest } [.discarded record]
  | peeksKey (hpc : poll.pc = .peekingKey) (pc : PollPc) (hready : poll.Ready pc)
      (hnext : pc = .reading ∨ pc = .checkingClock
        ∧ ∀ record rest, poll.queue = record :: rest → record.isKeyDown = false) :
      Polls poll .done { poll with pc := pc } []
  | reads (hpc : poll.pc = .reading) (count : Nat) (bytes : Bytes) (hlength : bytes.length ≤ readFileBytes) :
      Polls poll (.read count bytes)
        { poll with
          pc := .returned (.ok (if bytes = [] then none else some bytes))
          queue := poll.queue.drop count }
        [.read (poll.queue.take count) bytes]
  | checks (hpc : poll.pc = .checkingClock) (t : Instant) (pc : PollPc)
      (hnext : pc = .returned (.ok none)
        ∨ t < poll.deadline ∧ pc = .waiting (Poll.waitMillis (poll.deadline - t))) :
      Polls poll (.now t) { poll with clock := t, pc := pc } []
  | wakes (ms : Nat) (hpc : poll.pc = .waiting ms) : Polls poll .signaled { poll with pc := .peeking } []
  | expires (ms : Nat) (hpc : poll.pc = .waiting ms) :
      Polls poll .unsignaled { poll with pc := .returned (.ok none) } []
  | fails (hpc : poll.pc.result? = none) (code : Nat) (result : Except Error (Option Bytes))
      (hresult : ∀ bytes, result ≠ .ok (some bytes)) :
      Polls poll (.failed code) { poll with pc := .returned result } []

namespace Poll

variable {poll next : Poll} {answer : PollAnswer} {events : List PollEvent}

theorem step_spec (h : pollMachine poll answer = some (next, events)) :
    Polls poll answer next events := by
  obtain ⟨pc, clock, deadline, queue⟩ := poll
  cases answer with
  | arrives records =>
      have hstep : pollMachine ⟨pc, clock, deadline, queue⟩ (.arrives records) =
          some (⟨pc, clock, deadline, queue ++ records⟩, [.arrived records]) := by
        cases pc <;> rfl
      obtain ⟨rfl, rfl⟩ := Prod.mk.inj (Option.some.inj (hstep.symm.trans h))
      exact .arrives records
  | done =>
      cases pc <;> simp only [pollMachine, pollStep, reduceCtorEq] at h
      case peeking =>
        rcases queue with _ | ⟨record, rest⟩ <;>
          obtain ⟨rfl, rfl⟩ := Prod.mk.inj (Option.some.inj h)
        · exact .peeks rfl .peekingKey trivial (.inr ⟨rfl, by simp⟩)
        · cases hdrain : record.drain with
          | true => exact .peeks rfl .discarding ⟨record, rest, rfl, hdrain⟩ (.inl rfl)
          | false =>
              refine .peeks rfl .peekingKey trivial (.inr ⟨rfl, ?_⟩)
              intro record' rest' hqueue
              rw [← (List.cons.inj hqueue).1]
              exact hdrain
      case discarding =>
        rcases queue with _ | ⟨record, rest⟩
        · cases h
        · obtain ⟨rfl, rfl⟩ := Prod.mk.inj (Option.some.inj h)
          exact .discards rfl record rest rfl
      case peekingKey =>
        rcases queue with _ | ⟨record, rest⟩ <;>
          obtain ⟨rfl, rfl⟩ := Prod.mk.inj (Option.some.inj h)
        · exact .peeksKey rfl .checkingClock trivial (.inr ⟨rfl, by simp⟩)
        · cases hkey : record.isKeyDown with
          | true => exact .peeksKey rfl .reading ⟨record, rest, rfl, hkey⟩ (.inl rfl)
          | false =>
              refine .peeksKey rfl .checkingClock trivial (.inr ⟨rfl, ?_⟩)
              intro record' rest' hqueue
              rw [← (List.cons.inj hqueue).1]
              exact hkey
  | failed code =>
      cases pc <;> simp only [pollMachine, pollStep, reduceCtorEq, bail] at h
      case reading =>
        split_ifs at h <;> obtain ⟨rfl, rfl⟩ := Prod.mk.inj (Option.some.inj h)
        · exact .fails rfl code _ (by simp)
        · exact .fails rfl code _ (by simp)
      all_goals
        obtain ⟨rfl, rfl⟩ := Prod.mk.inj (Option.some.inj h)
        exact .fails rfl code _ (by simp)
  | read count bytes =>
      cases pc <;> simp only [pollMachine, pollStep, reduceCtorEq] at h
      case reading =>
        by_cases hread : queue.any InputRecord.isKeyDown ∧ bytes.length ≤ readFileBytes
        · rw [if_pos hread] at h
          obtain ⟨rfl, rfl⟩ := Prod.mk.inj (Option.some.inj h)
          exact .reads rfl count bytes hread.2
        · rw [if_neg hread] at h
          cases h
  | now t =>
      cases pc <;> simp only [pollMachine, pollStep, reduceCtorEq] at h
      case checkingClock =>
        split_ifs at h with hclock hdeadline <;> obtain ⟨rfl, rfl⟩ := Prod.mk.inj (Option.some.inj h)
        · exact .checks rfl t _ (.inl rfl)
        · exact .checks rfl t _ (.inr ⟨not_le.mp hdeadline, rfl⟩)
  | signaled =>
      cases pc <;> simp only [pollMachine, pollStep, reduceCtorEq] at h
      case waiting ms =>
        obtain ⟨rfl, rfl⟩ := Prod.mk.inj (Option.some.inj h)
        exact .wakes ms rfl
  | unsignaled =>
      cases pc <;> simp only [pollMachine, pollStep, reduceCtorEq] at h
      case waiting ms =>
        obtain ⟨rfl, rfl⟩ := Prod.mk.inj (Option.some.inj h)
        exact .expires ms rfl

/-- The poll so far. -/
structure Polled (queue : List InputRecord) (poll : Poll) (events : List PollEvent) : Prop where
  conserved : events.filterMap PollEvent.discarded? ++ events.flatMap PollEvent.taken ++ poll.queue =
    queue ++ events.flatMap PollEvent.appended
  drained : ∀ record ∈ events.filterMap PollEvent.discarded?, record.drain
  ready : poll.Ready poll.pc
  unread : poll.pc.result? = none → events.filterMap PollEvent.bytes? = []
  once : (events.filterMap PollEvent.bytes?).length ≤ 1
  result : ∀ bytes, poll.pc = .returned (.ok (some bytes)) →
    events.filterMap PollEvent.bytes? = [bytes] ∧ bytes ≠ [] ∧ bytes.length ≤ readFileBytes

theorem taken_eq_nil {events : List PollEvent} (h : events.filterMap PollEvent.bytes? = []) :
    events.flatMap PollEvent.taken = [] := by
  refine List.flatMap_eq_nil_iff.mpr fun event hevent => ?_
  have hbytes := List.filterMap_eq_nil_iff.mp h event hevent
  cases event with
  | read records bytes => cases hbytes
  | arrived records => rfl
  | discarded record => rfl

/-- What has been seen at the head of the queue is still there when records are appended. -/
theorem Ready.append {pc : PollPc} (h : poll.Ready pc) (records : List InputRecord) :
    ({ poll with queue := poll.queue ++ records } : Poll).Ready pc := by
  cases pc with
  | discarding =>
      obtain ⟨record, rest, hqueue, hdrain⟩ := h
      exact ⟨record, rest ++ records, congrArg (· ++ records) hqueue, hdrain⟩
  | reading =>
      obtain ⟨record, rest, hqueue, hkey⟩ := h
      exact ⟨record, rest ++ records, congrArg (· ++ records) hqueue, hkey⟩
  | waiting ms => exact h
  | _ => trivial

theorem Polled.silent {queue : List InputRecord} (h : Polled queue poll events)
    (hpc : poll.pc.result? = none) (hqueue : next.queue = poll.queue) (hready : next.Ready next.pc)
    (hresult : ∀ bytes, next.pc ≠ .returned (.ok (some bytes))) : Polled queue next (events ++ []) where
  conserved := by
    rw [List.append_nil, hqueue]
    exact h.conserved
  drained := by
    rw [List.append_nil]
    exact h.drained
  ready := hready
  unread _ := by
    rw [List.append_nil]
    exact h.unread hpc
  once := by
    rw [List.append_nil]
    exact h.once
  result bytes hbytes := absurd hbytes (hresult bytes)

theorem polled_step {queue : List InputRecord} {out : List PollEvent} (h : Polled queue poll events)
    (hstep : pollMachine poll answer = some (next, out)) : Polled queue next (events ++ out) := by
  cases step_spec hstep with
  | arrives records =>
      obtain ⟨hconserved, hdrained, hready, hunread, honce, hresult⟩ := h
      have hbytes : (events ++ [PollEvent.arrived records]).filterMap PollEvent.bytes? =
          events.filterMap PollEvent.bytes? := by
        simp [PollEvent.bytes?]
      refine ⟨?_, ?_, hready.append records, ?_, ?_, ?_⟩
      · simp only [List.filterMap_append, List.flatMap_append]
        simp only [List.filterMap_cons, List.filterMap_nil, List.flatMap_cons, List.flatMap_nil,
          PollEvent.discarded?, PollEvent.taken, PollEvent.appended, List.append_nil]
        rw [← List.append_assoc, hconserved, List.append_assoc]
      · simpa [PollEvent.discarded?] using hdrained
      · rwa [hbytes]
      · rwa [hbytes]
      · rwa [hbytes]
  | peeks hpc pc hready hnext =>
      refine h.silent (by rw [hpc]; rfl) rfl hready fun bytes hbytes => ?_
      obtain rfl | ⟨rfl, -⟩ := hnext <;> cases hbytes
  | discards hpc record rest hqueue =>
      obtain ⟨hconserved, hdrained, hready, hunread, honce, hresult⟩ := h
      have hnone := hunread (by rw [hpc]; rfl)
      have hbytes : (events ++ [PollEvent.discarded record]).filterMap PollEvent.bytes? = [] := by
        simpa [PollEvent.bytes?] using hnone
      refine ⟨?_, ?_, trivial, fun _ => hbytes, by rw [hbytes]; simp, fun bytes hreturned => ?_⟩
      · have htaken := taken_eq_nil hbytes
        rw [taken_eq_nil hnone, List.append_nil, hqueue] at hconserved
        rw [htaken, List.append_nil, List.filterMap_append, List.flatMap_append]
        simpa [PollEvent.discarded?, PollEvent.appended] using hconserved
      · rw [hpc] at hready
        obtain ⟨record', rest', hqueue', hdrain⟩ := hready
        obtain rfl := (List.cons.inj (hqueue.symm.trans hqueue')).1
        intro old hmem
        rw [List.filterMap_append] at hmem
        rcases List.mem_append.mp hmem with hmem | hmem
        · exact hdrained old hmem
        · rw [List.mem_singleton.mp hmem]
          exact hdrain
      · cases hreturned
  | peeksKey hpc pc hready hnext =>
      refine h.silent (by rw [hpc]; rfl) rfl hready fun bytes hbytes => ?_
      obtain rfl | ⟨rfl, -⟩ := hnext <;> cases hbytes
  | reads hpc count bytes hlength =>
      obtain ⟨hconserved, hdrained, hready, hunread, honce, hresult⟩ := h
      have hnone := hunread (by rw [hpc]; rfl)
      have hbytes : (events ++ [PollEvent.read (poll.queue.take count) bytes]).filterMap
          PollEvent.bytes? = [bytes] := by
        rw [List.filterMap_append, hnone]
        rfl
      refine ⟨?_, ?_, trivial, fun hopen => ?_, by rw [hbytes]; simp, fun bytes' hreturned => ?_⟩
      · rw [taken_eq_nil hnone, List.append_nil] at hconserved
        simp only [List.filterMap_append, List.flatMap_append]
        rw [taken_eq_nil hnone]
        simpa [List.filterMap_cons, PollEvent.discarded?, PollEvent.appended, PollEvent.taken] using
          hconserved
      · simpa [PollEvent.discarded?] using hdrained
      · cases hopen
      · have hsome : (if bytes = [] then none else some bytes) = some bytes' :=
          Except.ok.inj (PollPc.returned.inj hreturned)
        split_ifs at hsome with hempty
        obtain rfl := Option.some.inj hsome
        exact ⟨hbytes, hempty, hlength⟩
  | checks hpc t pc hnext =>
      refine h.silent (by rw [hpc]; rfl) rfl ?_ fun bytes hbytes => ?_
      · obtain rfl | ⟨hearly, rfl⟩ := hnext
        · trivial
        · exact ⟨hearly, wait_le_deadline hearly⟩
      · obtain rfl | ⟨-, rfl⟩ := hnext <;> cases hbytes
  | wakes ms hpc => exact h.silent (by rw [hpc]; rfl) rfl trivial (by simp)
  | expires ms hpc => exact h.silent (by rw [hpc]; rfl) rfl trivial (by simp)
  | fails hpc code result hresult =>
      refine h.silent hpc rfl trivial fun bytes hbytes => ?_
      exact hresult bytes (PollPc.returned.inj hbytes)

/-! ### A key behind other records -/

/-- The first record that is not discarded is a key. -/
def KeyBehind (noise queue : List InputRecord) : Prop :=
  (∀ record ∈ noise, record.drain) ∧ ∃ key rest, queue = noise ++ key :: rest ∧ key.isKeyDown

theorem KeyBehind.append {noise queue : List InputRecord} (h : KeyBehind noise queue)
    (records : List InputRecord) : KeyBehind noise (queue ++ records) := by
  obtain ⟨hnoise, key, rest, rfl, hkey⟩ := h
  exact ⟨hnoise, key, rest ++ records, by simp, hkey⟩

theorem KeyBehind.takeWhile_eq {noise queue : List InputRecord} (h : KeyBehind noise queue) :
    queue.takeWhile InputRecord.drain = noise := by
  obtain ⟨hnoise, key, rest, rfl, hkey⟩ := h
  rw [List.takeWhile_append_of_pos hnoise, List.takeWhile_cons_of_neg, List.append_nil]
  rw [InputRecord.drain_eq_false hkey]
  exact Bool.false_ne_true

/-- At this place of the poll it comes to the key, and neither reads the clock nor waits. -/
def Comes (queue : List InputRecord) : PollPc → Prop
  | .peeking => ∃ noise, KeyBehind noise queue
  | .discarding => ∃ record noise, KeyBehind (record :: noise) queue
  | .peekingKey => KeyBehind [] queue
  | .reading => KeyBehind [] queue
  | .checkingClock => False
  | .waiting _ => False
  | .returned _ => True

theorem Comes.append {queue : List InputRecord} {pc : PollPc} (h : Comes queue pc)
    (records : List InputRecord) : Comes (queue ++ records) pc := by
  cases pc with
  | peeking =>
      obtain ⟨noise, hkey⟩ := h
      exact ⟨noise, hkey.append records⟩
  | discarding =>
      obtain ⟨record, noise, hkey⟩ := h
      exact ⟨record, noise, hkey.append records⟩
  | peekingKey => exact KeyBehind.append h records
  | reading => exact KeyBehind.append h records
  | checkingClock => exact h
  | waiting ms => exact h
  | returned result => trivial

/-- The calls until the poll returns. -/
def callsLeft (queue : List InputRecord) : PollPc → Nat
  | .peeking => 2 * (queue.takeWhile InputRecord.drain).length + 3
  | .discarding => 2 * (queue.takeWhile InputRecord.drain).length + 2
  | .peekingKey => 2
  | .reading => 1
  | _ => 0

theorem Comes.callsLeft_append {queue : List InputRecord} {pc : PollPc} (h : Comes queue pc)
    (records : List InputRecord) : callsLeft (queue ++ records) pc = callsLeft queue pc := by
  cases pc with
  | peeking =>
      obtain ⟨noise, hkey⟩ := h
      rw [callsLeft, callsLeft, (hkey.append records).takeWhile_eq, hkey.takeWhile_eq]
  | discarding =>
      obtain ⟨record, noise, hkey⟩ := h
      rw [callsLeft, callsLeft, (hkey.append records).takeWhile_eq, hkey.takeWhile_eq]
  | _ => rfl

end Poll

def PollEvent.isArrival : PollEvent → Bool
  | .arrived _ => true
  | _ => false

namespace Poll

/-- Each call brings the poll nearer to its return. -/
theorem comes_step {poll next : Poll} {answer : PollAnswer} {out : List PollEvent}
    (h : Comes poll.queue poll.pc) (hstep : pollMachine poll answer = some (next, out)) :
    Comes next.queue next.pc ∧ callsLeft next.queue next.pc + 1 ≤ callsLeft poll.queue poll.pc
      + Transducer.refunds (fun event => if PollEvent.isArrival event then 1 else 0) out := by
  cases step_spec hstep with
  | arrives records => exact ⟨h.append records, (congrArg (· + 1) (h.callsLeft_append records)).le⟩
  | peeks hpc pc hready hnext =>
      rw [hpc] at h
      obtain ⟨noise, hkey⟩ := h
      have hlast := hkey.takeWhile_eq
      obtain ⟨hnoise, key, rest, hqueue, hdown⟩ := hkey
      obtain rfl | ⟨rfl, hhead⟩ := hnext
      · obtain ⟨record, rest', hqueue', hdrain⟩ := hready
        cases noise with
        | nil =>
            obtain rfl := (List.cons.inj (hqueue'.symm.trans hqueue)).1
            rw [InputRecord.drain_eq_false hdown] at hdrain
            cases hdrain
        | cons first noise =>
            refine ⟨⟨first, noise, hnoise, key, rest, hqueue, hdown⟩, ?_⟩
            simp [callsLeft, hpc]
      · cases noise with
        | nil =>
            refine ⟨⟨hnoise, key, rest, hqueue, hdown⟩, ?_⟩
            simp [callsLeft, hpc]
        | cons first noise =>
            have hdrain := hnoise first List.mem_cons_self
            rw [hhead first (noise ++ key :: rest) hqueue] at hdrain
            cases hdrain
  | discards hpc record rest hqueue =>
      rw [hpc] at h
      obtain ⟨first, noise, hkey⟩ := h
      have hbefore := hkey.takeWhile_eq
      obtain ⟨hnoise, key, later, hqueue', hdown⟩ := hkey
      have hrest : rest = noise ++ key :: later := (List.cons.inj (hqueue.symm.trans hqueue')).2
      have hkey' : KeyBehind noise rest :=
        ⟨fun r hr => hnoise r (List.mem_cons_of_mem _ hr), key, later, hrest, hdown⟩
      refine ⟨⟨noise, hkey'⟩, ?_⟩
      rw [hpc, callsLeft, callsLeft, hbefore, hkey'.takeWhile_eq, List.length_cons]
      exact Nat.le_add_right _ _
  | peeksKey hpc pc hready hnext =>
      rw [hpc] at h
      have hkey : KeyBehind [] poll.queue := h
      obtain rfl | ⟨rfl, hhead⟩ := hnext
      · refine ⟨hkey, ?_⟩
        simp [callsLeft, hpc]
      · obtain ⟨-, key, rest, hqueue, hdown⟩ := hkey
        rw [hhead key rest hqueue] at hdown
        cases hdown
  | reads hpc count bytes hlength =>
      refine ⟨trivial, ?_⟩
      simp [callsLeft, hpc]
  | checks hpc t pc hnext => exact absurd h (by rw [hpc]; exact id)
  | wakes ms hpc => exact absurd h (by rw [hpc]; exact id)
  | expires ms hpc => exact absurd h (by rw [hpc]; exact id)
  | fails hpc code result hresult =>
      refine ⟨trivial, ?_⟩
      cases hcall : poll.pc with
      | returned result => rw [hcall] at hpc; cases hpc
      | checkingClock => rw [hcall] at h; cases h
      | waiting ms => rw [hcall] at h; cases h
      | _ => simp [callsLeft]

/-- Something other than an arrival happens until the poll returns. -/
theorem enabled_of_comes {poll : Poll} (h : Comes poll.queue poll.pc) (hpc : poll.pc.result? = none) :
    ∃ answer, (∀ records, answer ≠ .arrives records) ∧ (pollMachine poll answer).isSome := by
  obtain ⟨pc, clock, deadline, queue⟩ := poll
  cases pc with
  | peeking => exact ⟨.done, by simp, by cases queue <;> rfl⟩
  | discarding =>
      obtain ⟨record, noise, -, key, rest, rfl, -⟩ := h
      exact ⟨.done, by simp, rfl⟩
  | peekingKey => exact ⟨.done, by simp, by cases queue <;> rfl⟩
  | reading =>
      obtain ⟨-, key, rest, rfl, hkey⟩ := h
      refine ⟨.read 1 [], by simp, ?_⟩
      simp [pollMachine, pollStep, hkey]
  | checkingClock => cases h
  | waiting ms => cases h
  | returned result => cases hpc

theorem start_polled (now : Instant) (timeout : Duration) (queue : List InputRecord) :
    Polled queue (start now timeout queue) [] where
  conserved := by simp [start]
  drained := by simp
  ready := trivial
  unread _ := rfl
  once := Nat.zero_le _
  result bytes hbytes := by cases hbytes

end Poll

/-- The answers of the clock and of a wait. -/
def PollAnswer.idle : PollAnswer → Bool
  | .now _ => true
  | .signaled => true
  | .unsignaled => true
  | _ => false

namespace Poll

/-- A poll that comes to its key, and what it has returned. -/
structure Served (queue : List InputRecord) (poll : Poll) (done : List PollAnswer)
    (events : List PollEvent) : Prop where
  polled : Polled queue poll events
  comes : Comes poll.queue poll.pc
  busy : ∀ answer ∈ done, answer.idle = false
  result : ∀ result, poll.pc = .returned result →
    (∃ bytes, events.filterMap PollEvent.bytes? = [bytes]
      ∧ result = .ok (if bytes = [] then none else some bytes)) ∨ ∃ code, .failed code ∈ done

theorem served_step {queue : List InputRecord} {poll next : Poll} {done : List PollAnswer}
    {events out : List PollEvent} {answer : PollAnswer} (h : Served queue poll done events)
    (hstep : pollMachine poll answer = some (next, out)) :
    Served queue next (done ++ [answer]) (events ++ out) := by
  have hpolled := polled_step h.polled hstep
  have hcomes := (comes_step h.comes hstep).1
  have hbusy (hanswer : answer.idle = false) : ∀ a ∈ done ++ [answer], a.idle = false := by
    intro a ha
    rcases List.mem_append.mp ha with ha | ha
    · exact h.busy a ha
    · rw [List.mem_singleton.mp ha]
      exact hanswer
  cases step_spec hstep with
  | arrives records =>
      refine ⟨hpolled, hcomes, hbusy rfl, fun result hresult => ?_⟩
      obtain ⟨bytes, hbytes, hok⟩ | ⟨code, hcode⟩ := h.result result hresult
      · exact .inl ⟨bytes, by simpa [List.filterMap_cons, PollEvent.bytes?] using hbytes, hok⟩
      · exact .inr ⟨code, List.mem_append_left _ hcode⟩
  | peeks hpc pc hready hnext =>
      refine ⟨hpolled, hcomes, hbusy rfl, fun result hresult => ?_⟩
      obtain rfl | ⟨rfl, -⟩ := hnext <;> cases hresult
  | discards hpc record rest hqueue =>
      exact ⟨hpolled, hcomes, hbusy rfl, fun result hresult => by cases hresult⟩
  | peeksKey hpc pc hready hnext =>
      refine ⟨hpolled, hcomes, hbusy rfl, fun result hresult => ?_⟩
      obtain rfl | ⟨rfl, -⟩ := hnext <;> cases hresult
  | reads hpc count bytes hlength =>
      refine ⟨hpolled, hcomes, hbusy rfl, fun result hresult => .inl ⟨bytes, ?_, ?_⟩⟩
      · rw [List.filterMap_append, h.polled.unread (by rw [hpc]; rfl)]
        rfl
      · exact (PollPc.returned.inj hresult).symm
  | checks hpc t pc hnext => exact absurd h.comes (by rw [hpc]; exact id)
  | wakes ms hpc => exact absurd h.comes (by rw [hpc]; exact id)
  | expires ms hpc => exact absurd h.comes (by rw [hpc]; exact id)
  | fails hpc code result hresult =>
      exact ⟨hpolled, hcomes, hbusy rfl, fun _ _ => .inr ⟨code, by simp⟩⟩

end Poll

open Poll

/-- **A poll loses no key and does not block.** Whatever the console queues, and whenever: each record is
discarded, or given to `ReadFile`, or still queued, in its order, and no key is discarded. When it takes a
record the head of the queue is one that the call takes, it does not wait beyond its deadline, and what
it returns is what its one `ReadFile` made. -/
theorem poll_keeps_keys {now : Instant} {timeout : Duration} {queue : List InputRecord}
    {answers : List PollAnswer} {poll : Poll} {events : List PollEvent}
    (hrun : pollMachine.run (start now timeout queue) answers = some (poll, events)) :
    events.filterMap PollEvent.discarded? ++ events.flatMap PollEvent.taken ++ poll.queue =
        queue ++ events.flatMap PollEvent.appended
      ∧ (∀ record ∈ events.filterMap PollEvent.discarded?, record.isKeyDown = false)
      ∧ poll.Ready poll.pc
      ∧ (events.filterMap PollEvent.bytes?).length ≤ 1
      ∧ ∀ bytes, poll.pc = .returned (.ok (some bytes)) →
        events.filterMap PollEvent.bytes? = [bytes] ∧ bytes ≠ [] ∧ bytes.length ≤ readFileBytes := by
  have hpolled := pollMachine.run_invariant (I := Polled queue) polled_step []
    (start_polled now timeout queue) hrun
  rw [List.nil_append] at hpolled
  exact ⟨hpolled.conserved,
    fun record hrecord => InputRecord.isKeyDown_eq_false (hpolled.drained record hrecord),
    hpolled.ready, hpolled.once, hpolled.result⟩

/-- The mouse moves before a key and after it, and the key is read. -/
theorem poll_keeps_keys_of_mouse :
    let mouse : InputRecord := ⟨InputRecord.mouseEvent, false⟩
    let key : InputRecord := ⟨InputRecord.keyEvent, true⟩
    ∃ poll events, pollMachine.run (start 0 5000000 [mouse])
        [.done, .arrives [key, mouse], .done, .done, .done, .read 1 [0x78]] = some (poll, events)
      ∧ events.filterMap PollEvent.discarded? ++ events.flatMap PollEvent.taken ++ poll.queue =
        [mouse, key, mouse] := by
  intro mouse key
  have hran : (pollMachine.run (start 0 5000000 [mouse])
      [.done, .arrives [key, mouse], .done, .done, .done, .read 1 [0x78]]).map
        (fun out => out.2.flatMap PollEvent.appended) = some [key, mouse] := by
    decide +kernel
  obtain ⟨⟨poll, events⟩, hrun, happended⟩ := Option.map_eq_some_iff.mp hran
  refine ⟨poll, events, hrun, (poll_keeps_keys hrun).1.trans ?_⟩
  exact congrArg ([mouse] ++ ·) happended

/-- **A queued key is read at once.** If a key is queued when the poll begins, behind any records that
are to be discarded, the poll makes two calls for each of these and three for the key, it neither looks at
the clock nor waits, it is not stuck before it returns, and it returns what `ReadFile` makes of the key
unless a call fails. -/
theorem queued_key_is_read {now : Instant} {timeout : Duration} {noise rest : List InputRecord}
    {key : InputRecord} (hnoise : ∀ record ∈ noise, record.drain) (hkey : key.isKeyDown)
    {answers : List PollAnswer} {poll : Poll} {events : List PollEvent}
    (hrun : pollMachine.run (start now timeout (noise ++ key :: rest)) answers = some (poll, events)) :
    answers.length ≤ 2 * noise.length + 3 + events.countP PollEvent.isArrival
      ∧ (∀ answer ∈ answers, answer.idle = false)
      ∧ (poll.pc.result? = none →
        ∃ answer, (∀ records, answer ≠ .arrives records) ∧ (pollMachine poll answer).isSome)
      ∧ ∀ result, poll.pc = .returned result →
        (∃ bytes, events.filterMap PollEvent.bytes? = [bytes]
          ∧ result = .ok (if bytes = [] then none else some bytes))
          ∨ ∃ code, .failed code ∈ answers := by
  have hbehind : KeyBehind noise (noise ++ key :: rest) := ⟨hnoise, key, rest, rfl, hkey⟩
  have hcomes : Comes (noise ++ key :: rest) .peeking := ⟨noise, hbehind⟩
  have hserved := pollMachine.run_invariant_actions (I := Served (noise ++ key :: rest)) served_step
    [] [] ⟨start_polled now timeout _, hcomes, by simp, fun _ h => by cases h⟩ hrun
  obtain ⟨-, hcalls⟩ := pollMachine.length_le_of_potential
    (fun event => if PollEvent.isArrival event then 1 else 0)
    (I := fun poll => Comes poll.queue poll.pc) (C := fun _ _ => True)
    (fun h _ hstep => comes_step h hstep) hcomes (fun _ _ _ _ _ _ _ _ _ => trivial) hrun
  refine ⟨?_, hserved.busy, enabled_of_comes hserved.comes, hserved.result⟩
  have hfirst : callsLeft (start now timeout (noise ++ key :: rest)).queue .peeking =
      2 * noise.length + 3 := by
    rw [callsLeft]
    exact congrArg (2 * List.length · + 3) hbehind.takeWhile_eq
  rw [Transducer.refunds_ite, Nat.one_mul] at hcalls
  exact (Nat.le_add_right _ _).trans (hcalls.trans (Nat.add_le_add_right hfirst.le _))

/-- A key behind a mouse move and the release of another key. -/
theorem queued_key_is_read_after_mouse :
    let noise : List InputRecord := [⟨InputRecord.mouseEvent, false⟩, ⟨InputRecord.keyEvent, false⟩]
    let key : InputRecord := ⟨InputRecord.keyEvent, true⟩
    ∃ poll events, pollMachine.run (start 0 5000000 (noise ++ key :: []))
        [.done, .done, .done, .done, .done, .done, .read 1 [0x78]] = some (poll, events)
      ∧ poll.pc = .returned (.ok (some [0x78])) ∧ events.filterMap PollEvent.bytes? = [[0x78]] := by
  intro noise key
  have hran : (pollMachine.run (start 0 5000000 (noise ++ key :: []))
      [.done, .done, .done, .done, .done, .done, .read 1 [0x78]]).map (fun out => out.1.pc) =
      some (.returned (.ok (some [0x78]))) := by
    decide +kernel
  obtain ⟨⟨poll, events⟩, hrun, hpc⟩ := Option.map_eq_some_iff.mp hran
  have hnoise : ∀ record ∈ noise, record.drain := by
    simp [noise, InputRecord.drain, InputRecord.mouseEvent, InputRecord.keyEvent]
  refine ⟨poll, events, hrun, hpc, ?_⟩
  obtain ⟨bytes, hbytes, hok⟩ | ⟨code, hcode⟩ := (queued_key_is_read hnoise rfl hrun).2.2.2 _ hpc
  · have hsome := Except.ok.inj hok
    split_ifs at hsome
    rw [hbytes, Option.some.inj hsome]
  · simp at hcode

end EternalTerminal
