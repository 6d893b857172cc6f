import EternalTerminal.Host
import EternalTerminal.Library.ByteRange
import EternalTerminal.Library.Search

/-!
# The bootstrap over SSH (`ssh_setup.rs`)

`etterminal` is started on the server, and the id and the passkey of the session are read from what it
prints. The random draws, the environment and what `ssh` does are given.
-/

namespace EternalTerminal

def alphanum : List Char :=
  "0123456789ABCDEFGHIJKLMNOPQRSTUVWXYZabcdefghijklmnopqrstuvwxyz".toList

def genRandomAlphanum (draw : Nat → Fin alphanum.length) (len : Nat) : List Char :=
  (List.range len).map fun n => alphanum.get (draw n)

structure SessionKeys where
  id : String
  passkey : String
  deriving DecidableEq, Repr

structure SshSetupOptions where
  user : String
  hostAlias : String
  killOtherSessions : Bool
  verbose : UInt8
  etterminalPath : Option String
  serverFifo : Option String
  sshOptions : List String
  jumphost : Option String
  deriving DecidableEq, Repr

/-! ### The call -/

/-- The id that is sent; its beginning asks the server for others. -/
def proposedId (draw : Nat → Fin alphanum.length) : String :=
  String.ofList ((((genRandomAlphanum draw 16).set 0 'X').set 1 'X').set 2 'X')

/-- `cmdoptions`. -/
def cmdOptions (opts : SshSetupOptions) : String :=
  let verbose := s!"--verbose={opts.verbose}"
  match opts.serverFifo with
  | some fifo => verbose ++ " --serverfifo=" ++ fifo
  | none => verbose

/-- `remote_cmd`. -/
def remoteCmd (env : String → Option String) (opts : SshSetupOptions) (id passkey : String) :
    String :=
  let kill := if opts.killOtherSessions then s!"pkill etterminal -u {opts.user}; sleep 0.5; " else ""
  let etterminal := opts.etterminalPath.getD "etterminal"
  kill ++ s!"echo '{id}/{passkey}_{clientTerm env}' | {etterminal} {cmdOptions opts}"

/-- `ssh_args`. -/
def sshArgs (opts : SshSetupOptions) (remoteCmd : String) : List String :=
  let jump := match opts.jumphost with
    | some jump => ["-J", jump]
    | none => []
  let dest := if opts.user = "" then opts.hostAlias else s!"{opts.user}@{opts.hostAlias}"
  jump ++ dest :: opts.sshOptions.map ("-o" ++ ·) ++ [remoteCmd]

/-- The arguments of `ssh`, with the id and the passkey that are proposed. -/
def setupArgs (env : String → Option String) (idDraw passkeyDraw : Nat → Fin alphanum.length)
    (opts : SshSetupOptions) : List String :=
  let id := proposedId idDraw
  let passkey := String.ofList (genRandomAlphanum passkeyDraw 32)
  sshArgs opts (remoteCmd env opts id passkey)

structure ExitStatus where
  success : Bool
  /-- `{status}`. -/
  text : String

/-- What a spawned `ssh` prints and how it ends. -/
structure SshChild where
  stdout : Except ErrorKind String
  status : Except ErrorKind ExitStatus

/-- `spawn` is `Command::spawn`, with the text of its error. -/
def runSshInteractive (spawn : List String → Except String SshChild) (args : List String) :
    Except Error String :=
  match spawn args with
  | .error e => .error (.msg s!"failed to spawn ssh: {e}. Is OpenSSH installed and on PATH?")
  | .ok child =>
    match child.stdout, child.status with
    | .error kind, _ => .error (.io kind)
    | .ok _, .error kind => .error (.io kind)
    | .ok stdout, .ok status =>
      if status.success = false ∧ stdout = "" then
        .error (.msg s!"ssh exited with {status.text}")
      else .ok stdout

/-! ### What is read from the output -/

/-- `char::is_whitespace`: the property `White_Space` of Unicode. -/
def isWhitespace (c : Char) : Bool :=
  let n := c.toNat
  (0x09 ≤ n && n ≤ 0x0D) || n == 0x20 || n == 0x85 || n == 0xA0 || n == 0x1680
    || (0x2000 ≤ n && n ≤ 0x200A) || n == 0x2028 || n == 0x2029 || n == 0x202F || n == 0x205F
    || n == 0x3000

/-- `str::trim`. -/
def trim (text : List Char) : List Char :=
  ((text.dropWhile isWhitespace).reverse.dropWhile isWhitespace).reverse

/-- `str::splitn(2, sep)`. -/
def splitTwo (sep : Char) (text : List Char) : List (List Char) :=
  match text.splitFirst sep with
  | some (before, behind) => [before, behind]
  | none => [text]

def marker : String := "IDPASSKEY:"

/-- The passkey may have other characters around it. -/
def cleanPasskey (text : List Char) : String :=
  String.ofList (((trim text).filter Char.isAlphanum).take 32)

def parseIdpasskey (sshBuffer : String) : Except Error (String × String) :=
  match List.findWord Char.utf8Size marker.toList sshBuffer.toList with
  | none =>
    .error (.msg ("error authenticating with etserver (no IDPASSKEY in output). "
      ++ "Avoid printing from .bashrc/.zshrc. Server output:\n" ++ sshBuffer))
  | some idx =>
    let start := idx + marker.utf8ByteSize
    match sshBuffer.getRange start (start + 16 + 1 + 32) with
    | none => .error (.msg "truncated IDPASSKEY payload")
    | some slice =>
      match splitTwo '/' slice.toList with
      | [] => .error (.msg "missing id")
      | [_] => .error (.msg "missing passkey")
      | id :: passkey :: _ => .ok (String.ofList id, cleanPasskey passkey)

/-- `setup_ssh`. -/
def setupSsh (env : String → Option String) (idDraw passkeyDraw : Nat → Fin alphanum.length)
    (spawn : List String → Except String SshChild) (opts : SshSetupOptions) :
    Except Error SessionKeys :=
  match runSshInteractive spawn (setupArgs env idDraw passkeyDraw opts) with
  | .error e => .error e
  | .ok output =>
    if trim output.toList = [] then
      .error (.msg ("error starting ET through ssh — ensure `ssh` works and etterminal is "
        ++ "installed on the server"))
    else
      match parseIdpasskey output with
      | .error e => .error e
      | .ok (id, passkey) =>
        if id = "" ∨ passkey = "" then .error (.msg "missing id or passkey from server")
        else .ok { id, passkey }

end EternalTerminal
