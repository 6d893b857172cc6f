import EternalTerminal.Session.RunLoop
import EternalTerminal.Terminal.RawMode

/-!
# Polling the console (`terminal.rs`, `poll_stdin` on Windows)

The console queues records of several kinds, and `ReadFile` waits for a key among them whatever else is
there. So the poll looks at the head of the queue before each call that takes a record. It takes one call
at a time, and between two calls the console may append records.
-/

namespace EternalTerminal

/-- `INPUT_RECORD`, as far as the poll looks at it. -/
structure InputRecord where
  eventType : UInt32
  /-- `bKeyDown` of a key event. -/
  keyDown : Bool
  deriving DecidableEq, Repr

namespace InputRecord

def keyEvent : UInt32 := 0x0001
def mouseEvent : UInt32 := 0x0002
def windowBufferSizeEvent : UInt32 := 0x0004
def menuEvent : UInt32 := 0x0008
def focusEvent : UInt32 := 0x0010

/-- `drain` of `drain_non_vt_console_events`. -/
def drain (record : InputRecord) : Bool :=
  if record.eventType = mouseEvent ∨ record.eventType = focusEvent ∨ record.eventType = menuEvent
      ∨ record.eventType = windowBufferSizeEvent then true
  else if record.eventType = keyEvent then !record.keyDown
  else false

/-- What `console_has_key_down` looks for. -/
def isKeyDown (record : InputRecord) : Bool :=
  if record.eventType ≠ keyEvent then false else record.keyDown

end InputRecord

/-- The call that `poll_stdin` makes next. -/
inductive PollPc where
  /-- `PeekConsoleInputW` in `drain_non_vt_console_events`. -/
  | peeking
  /-- `ReadConsoleInputW` -/
  | discarding
  /-- `PeekConsoleInputW` in `console_has_key_down`. -/
  | peekingKey
  /-- `ReadFile` -/
  | reading
  | checkingClock
  /-- `WaitForSingleObject` -/
  | waiting (ms : Nat)
  | returned (result : Except Error (Option Bytes))
  deriving DecidableEq

structure Poll where
  pc : PollPc
  /-- The last reading of the clock. -/
  clock : Instant
  deadline : Instant
  queue : List InputRecord

inductive PollAnswer where
  /-- The console appends records. -/
  | arrives (records : List InputRecord)
  /-- The call succeeds, and answers with what the queue holds. -/
  | done
  /-- The call fails, and `GetLastError` says so. -/
  | failed (code : Nat)
  /-- `ReadFile` makes these bytes of so many records. -/
  | read (count : Nat) (bytes : Bytes)
  | now (t : Instant)
  /-- `WAIT_OBJECT_0` -/
  | signaled
  /-- `WAIT_TIMEOUT`, or anything else. -/
  | unsignaled

inductive PollEvent where
  | arrived (records : List InputRecord)
  | discarded (record : InputRecord)
  | read (records : List InputRecord) (bytes : Bytes)
  deriving DecidableEq

/-- The size of the buffer that `ReadFile` fills. -/
def readFileBytes : Nat := 16 * 1024

/-- `ERROR_OPERATION_ABORTED` -/
def operationAborted : Nat := 995

namespace Poll

def start (now : Instant) (timeout : Duration) (queue : List InputRecord) : Poll where
  pc := .peeking
  clock := now
  deadline := now + timeout
  queue := queue

/-- `bail!` with the text of the call. -/
def bail (poll : Poll) (call : String) (code : Nat) : Poll :=
  { poll with pc := .returned (.error (callFailed call code)) }

/-- `remaining.as_millis()`, as `u32`. -/
def waitMillis (remaining : Duration) : Nat := min (remaining / 1000000) (2 ^ 32 - 1)

end Poll

/-- One call of `poll_stdin`; `none` if the answer is not one to it, or if it blocks: `ReadConsoleInputW`
waits for a record and `ReadFile` for a key. -/
def pollStep (poll : Poll) : PollPc → PollAnswer → Option (Poll × List PollEvent)
  | _, .arrives records =>
    some ({ poll with queue := poll.queue ++ records }, [.arrived records])
  | .peeking, .done =>
    match poll.queue with
    | [] => some ({ poll with pc := .peekingKey }, [])
    | record :: _ =>
      some ({ poll with pc := if record.drain then .discarding else .peekingKey }, [])
  | .peeking, .failed code => some (poll.bail "PeekConsoleInput" code, [])
  | .discarding, .done =>
    match poll.queue with
    | [] => none
    | record :: rest => some ({ poll with pc := .peeking, queue := rest }, [.discarded record])
  | .discarding, .failed code => some (poll.bail "ReadConsoleInput" code, [])
  | .peekingKey, .done =>
    match poll.queue with
    | [] => some ({ poll with pc := .checkingClock }, [])
    | record :: _ =>
      some ({ poll with pc := if record.isKeyDown then .reading else .checkingClock }, [])
  | .peekingKey, .failed code => some (poll.bail "PeekConsoleInput" code, [])
  | .reading, .read count bytes =>
    if poll.queue.any InputRecord.isKeyDown ∧ bytes.length ≤ readFileBytes then
      some ({ poll with
          pc := .returned (.ok (if bytes = [] then none else some bytes))
          queue := poll.queue.drop count },
        [.read (poll.queue.take count) bytes])
    else none
  | .reading, .failed code =>
    if code = 0 ∨ code = operationAborted then some ({ poll with pc := .returned (.ok none) }, [])
    else some (poll.bail "ReadFile(stdin)" code, [])
  | .checkingClock, .now t =>
    if poll.clock ≤ t then
      some ({ poll with
          clock := t
          pc := if poll.deadline ≤ t then .returned (.ok none)
            else .waiting (Poll.waitMillis (poll.deadline - t)) }, [])
    else none
  | .waiting _, .signaled => some ({ poll with pc := .peeking }, [])
  | .waiting _, .unsignaled => some ({ poll with pc := .returned (.ok none) }, [])
  | _, _ => none

def pollMachine : Transducer Poll PollAnswer PollEvent := fun poll answer =>
  pollStep poll poll.pc answer

end EternalTerminal
