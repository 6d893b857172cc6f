import EternalTerminal.Library.Separator
import EternalTerminal.Packet

/-!
# Host, user and port of an argument (`host.rs`)

`[user@]host[:port]` is cut at the first `@`; whether the rest ends with a port is told from the number
of its colons. Texts are lists of characters while they are cut.
-/

namespace EternalTerminal

structure Destination where
  user : String
  host : String
  /-- May be an alias of the SSH configuration. -/
  hostAlias : String
  etPort : UInt16
  deriving DecidableEq, Repr

/-- `local_username`; `env` is `env::var`. -/
def localUsername (env : String → Option String) : String :=
  ((env "USERNAME").or (env "USER")).getD "user"

/-- `client_term`. -/
def clientTerm (env : String → Option String) : String := (env "TERM").getD "xterm-256color"

/-- The digits of `u16::from_str` from a value on. -/
def parseDigits : Nat → List Char → Option Nat
  | value, [] => some value
  | value, c :: digits =>
    if c.isDigit then
      let value := 10 * value + (c.toNat - '0'.toNat)
      if value < 2 ^ 16 then parseDigits value digits else none
    else none

/-- `u16::from_str`: a sign may stand in front, but not alone. -/
def parseU16 (text : List Char) : Option UInt16 :=
  let digits := if text.head? = some '+' then text.tail else text
  if digits = [] then none else (parseDigits 0 digits).map UInt16.ofNat

/-- The last segment is the port. -/
def splitPort (hostArg : List Char) (defaultPort : UInt16) : Except Error (List Char × UInt16) :=
  match hostArg.splitLast ':' with
  | some (host, port) =>
    match parseU16 port with
    | some etPort => .ok (host, etPort)
    | none => .error (.msg "invalid port in host argument")
  | none => .ok (hostArg, defaultPort)

/-- The host and the port, without the user. -/
def parseHostPart (hostArg : List Char) (defaultPort : UInt16) :
    Except Error (List Char × UInt16) :=
  let colonCount := hostArg.count ':'
  if colonCount = 1 then splitPort hostArg defaultPort
  else if colonCount ≥ 2 then
    -- an abbreviated IPv6 address, then one in full without a port and with one
    if [':', ':'] <:+: hostArg then .ok (hostArg, defaultPort)
    else if colonCount = 7 then .ok (hostArg, defaultPort)
    else if colonCount = 8 then splitPort hostArg defaultPort
    else .error (.msg ("invalid host positional arg: " ++ String.ofList hostArg))
  else .ok (hostArg, defaultPort)

/-- The argument cut at its first `@`. -/
def splitUser (hostArg : List Char) (defaultUser : Option String) : String × List Char :=
  match hostArg.splitFirst '@' with
  | some (user, rest) => (String.ofList user, rest)
  | none => (defaultUser.getD "", hostArg)

def parseDestination (env : String → Option String) (hostArg : String) (defaultUser : Option String)
    (defaultPort : UInt16) : Except Error Destination :=
  let (user, hostArg) := splitUser hostArg.toList defaultUser
  match parseHostPart hostArg defaultPort with
  | .error e => .error e
  | .ok (host, etPort) =>
    let user := if user = "" then localUsername env else user
    .ok { user, host := String.ofList host, hostAlias := String.ofList host, etPort }

end EternalTerminal
