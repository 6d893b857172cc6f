import EternalTerminal.Session.LiveSession
import EternalTerminal.Startup

/-!
# The program from its keys to its end (`main.rs`, `real_main`)

`real_main` makes its connection, runs the session on it and shuts it down. The connection is dropped when
`real_main` returns, and `Drop` shuts it down too: for a second time, or for the only time if there was no
session or a panic has ended it.
-/

namespace EternalTerminal

inductive Program where
  | starting (s : Startup)
  | inSession (s : LiveSession)
  /-- In `shutdown`, which is that of `Drop` if the connection is `dropped`. -/
  | closing (client : Client) (dropped : Bool)
  | ended (client : Client)

inductive ProgramAction where
  | dial (dial : Dial)
  | live (action : LiveAction)
  /-- A step of `shutdown`. -/
  | step
  /-- A step of a reconnect thread while `shutdown` is under way. -/
  | thread (index : Nat) (answer : Answer)
  /-- What is under way has ended, and the program goes on. -/
  | proceed

namespace Program

def start : Program := .starting Startup.start

/-- The session begins when the loop of the attempts is left. -/
def afterDial (opts : ClientOptions) (s : Startup) : Program :=
  match s.stage with
  | .connected _ => .inSession ⟨s.client, RunSession.start opts, false⟩
  | _ => .starting s

/-- `shutdown` is called. -/
def shutDown (client : Client) (dropped : Bool) : Option (Program × List ClientEvent) :=
  (clientMachine client (.session .shutdown)).map fun out => (.closing out.1 dropped, out.2)

/-- What is left to be done. -/
def proceed : Program → Option (Program × List ClientEvent)
  | .starting s =>
    match s.stage with
    | .failed _ => shutDown s.client true
    | .panicked => shutDown s.client true
    | _ => none
  | .inSession s =>
    match s.run.pc with
    | .returned _ => shutDown s.client false
    | .crashed => shutDown s.client true
    | _ => none
  | .closing client dropped =>
    match client.session with
    | .idle => if dropped then some (.ended client, []) else shutDown client true
    | _ => none
  | .ended _ => none

end Program

/-- The program shows what its connection shows. -/
def programMachine (memory : Memory) (xsalsa20poly1305 : Bytes → Cipher) (launch : Launch) :
    Transducer Program ProgramAction ClientEvent
  | .starting s, .dial dial =>
    (startupMachine memory xsalsa20poly1305 launch.endpoint s dial).map fun out =>
      (Program.afterDial launch.options out.1, [])
  | .inSession s, .live action =>
    (liveMachine memory s action).map fun out =>
      (.inSession out.1, out.2.filterMap LiveEvent.client?)
  | .closing client dropped, .step =>
    (clientMachine client (.session .step)).map fun out => (.closing out.1 dropped, out.2)
  | .closing client dropped, .thread index answer =>
    (clientMachine client (.thread index answer)).map fun out => (.closing out.1 dropped, out.2)
  | p, .proceed => p.proceed
  | _, _ => none

end EternalTerminal
