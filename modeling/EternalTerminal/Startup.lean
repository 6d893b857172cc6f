import EternalTerminal.CommandLine
import EternalTerminal.Connection.Connect

/-!
# The start of the program (`main.rs`, the loop of `real_main`)

Once the keys are known the program calls `connect` up to three times, and goes on to the session with the
first connection it gets.
-/

namespace EternalTerminal

inductive StartupStage where
  /-- The loop, and how many attempts have failed. -/
  | trying (attempts : Nat)
  /-- The loop was left, and this is what the peer has sent behind its answer. -/
  | connected (stream : BlockingStream)
  /-- `could not make initial connection: {e}` -/
  | failed (e : Error)
  | panicked

structure Startup where
  client : Client
  stage : StartupStage

namespace Startup

def start : Startup := ⟨Client.new, .trying 0⟩

/-- One round of the loop. -/
def dial (memory : Memory) (xsalsa20poly1305 : Bytes → Cipher) (endpoint : Endpoint) (s : Startup)
    (attempts : Nat) (dial : Dial) : Startup :=
  match s.client.connect memory xsalsa20poly1305 endpoint dial with
  | none => ⟨s.client, .panicked⟩
  | some (.ok stream, client) => ⟨client, .connected stream⟩
  | some (.error e, client) =>
    let attempts := attempts + 1
    if attempts ≥ 3 then ⟨client, .failed e⟩ else ⟨client, .trying attempts⟩

end Startup

/-- The connection that `real_main` makes of what it has got so far. -/
def Launch.endpoint (launch : Launch) : Endpoint :=
  .new launch.host launch.port launch.keys.id launch.keys.passkey

def startupMachine (memory : Memory) (xsalsa20poly1305 : Bytes → Cipher) (endpoint : Endpoint) :
    Transducer Startup Dial Unit
  | s, dial =>
    match s.stage with
    | .trying attempts => some (s.dial memory xsalsa20poly1305 endpoint attempts dial, [])
    | _ => none

end EternalTerminal
