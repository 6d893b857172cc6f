import EternalTerminal.SshSetup
import EternalTerminal.Session.RunLoop

/-!
# The command line (`main.rs`)

What `real_main` makes of the arguments: the destination, the etserver to connect to, the bootstrap over
SSH and the options of the session.
-/

namespace EternalTerminal

structure Cli where
  host : String
  username : Option String := none
  port : UInt16 := 2022
  command : Option String := none
  noexit : Bool := false
  terminalPath : Option String := none
  macserver : Bool := false
  killOtherSessions : Bool := false
  jumphost : Option String := none
  jport : UInt16 := 2022
  keepalive : UInt64 := 5
  noTerminal : Bool := false
  verbose : UInt8 := 0
  sshOption : List String := []
  serverFifo : Option String := none

def cliHostHasExplicitPort (host : List Char) : Bool :=
  let colons := host.count ':'
  if colons = 1 then true
  else if colons = 8 then true
  else false

def jumpHostname (jump : List Char) : List Char :=
  let s := match jump.splitFirst '@' with
    | some (_, rest) => rest
    | none => jump
  if s.count ':' = 1 then
    match s.splitLast ':' with
    | some (host, port) => if (parseU16 port).isSome then host else s
    | none => s
  else s

namespace Cli

/-- The second look at DESTINATION, in which the user is still there. -/
def patchPort (cli : Cli) (dest : Destination) : Destination :=
  let host := cli.host.toList
  if ':' ∉ host ∨ host.count ':' ≥ 2 ∧ [':', ':'] <:+: host then
    if !cliHostHasExplicitPort host then { dest with etPort := cli.port } else dest
  else if !cliHostHasExplicitPort host then { dest with etPort := cli.port }
  else dest

/-- `dest`. -/
def destination (env : String → Option String) (cli : Cli) : Except Error Destination :=
  match parseDestination env cli.host cli.username cli.port with
  | .error e => .error e
  | .ok dest => .ok (cli.patchPort dest)

/-- `(connect_host, connect_port, jumphost_mode)`. -/
def target (cli : Cli) (dest : Destination) : String × UInt16 × Bool :=
  match cli.jumphost with
  | some jump => (String.ofList (jumpHostname jump.toList), cli.jport, true)
  | none => (dest.host, dest.etPort, false)

/-- `etterminal_path`. -/
def etterminalPath (cli : Cli) : Option String :=
  if cli.macserver ∧ cli.terminalPath = none then some "/usr/local/bin/etterminal"
  else cli.terminalPath

def setupOptions (cli : Cli) (dest : Destination) : SshSetupOptions where
  user := dest.user
  hostAlias := dest.hostAlias
  killOtherSessions := cli.killOtherSessions
  verbose := cli.verbose
  etterminalPath := cli.etterminalPath
  serverFifo := cli.serverFifo
  sshOptions := cli.sshOption
  jumphost := cli.jumphost

def clientOptions (cli : Cli) (jumphostMode : Bool) : ClientOptions where
  command := cli.command
  noExit := cli.noexit
  keepaliveSecs := cli.keepalive.toNat
  jumphost := jumphostMode
  noTerminal := cli.noTerminal

end Cli

/-- What `real_main` decides before it calls anything. -/
structure Plan where
  connectHost : String
  connectPort : UInt16
  setup : SshSetupOptions
  options : ClientOptions

def Cli.plan (env : String → Option String) (cli : Cli) : Except Error Plan :=
  match cli.destination env with
  | .error e => .error e
  | .ok dest =>
    let (connectHost, connectPort, jumphostMode) := cli.target dest
    .ok { connectHost, connectPort, setup := cli.setupOptions dest,
          options := cli.clientOptions jumphostMode }

/-- The arguments of `ClientConnection::new` and of `run_session`. -/
structure Launch where
  host : String
  port : UInt16
  keys : SessionKeys
  options : ClientOptions

/-- `real_main` up to the connection; `ping` is `ping_server`. -/
def realMain (env : String → Option String) (ping : String → UInt16 → Bool)
    (idDraw passkeyDraw : Nat → Fin alphanum.length)
    (spawn : List String → Except String SshChild) (cli : Cli) : Except Error Launch :=
  match cli.plan env with
  | .error e => .error e
  | .ok plan =>
    if ping plan.connectHost plan.connectPort then
      match setupSsh env idDraw passkeyDraw spawn plan.setup with
      | .error e => .error e
      | .ok keys =>
        .ok { host := plan.connectHost, port := plan.connectPort, keys, options := plan.options }
    else
      .error (.msg (s!"could not reach the ET server: {plan.connectHost}:{plan.connectPort}\n"
        ++ "Ensure etserver is running and the port is reachable (default 2022)."))

end EternalTerminal
