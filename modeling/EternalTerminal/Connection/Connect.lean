import EternalTerminal.Connection.Attempt
import EternalTerminal.Connection.Client

/-!
# The first connection (`connection.rs`, `ClientConnection::connect`)

A blocking handshake of one message each way, after which the two directions get their handlers. Nothing
runs beside it: the session begins when it has succeeded. The socket of a failed call is closed with it, so
the next one may have its name.
-/

namespace EternalTerminal

/-- The loop of `tcp_connect` over the addresses, with the last error. -/
def tryAddresses {σ : Type} (lastErr : Option ErrorKind) :
    List (Except ErrorKind σ) → Except (Option ErrorKind) σ
  | [] => .error lastErr
  | .ok s :: _ => .ok s
  | .error e :: rest => tryAddresses (some e) rest

/-- `tcp_connect`; `resolved` is the answer of `to_socket_addrs`, with what each address answers. -/
def tcpConnect {σ : Type} (host : String) (port : UInt16)
    (resolved : Except ErrorKind (List (Except ErrorKind σ))) : Except Error σ :=
  match resolved with
  | .error e => .error (.io e)
  | .ok addrs =>
    match tryAddresses none addrs with
    | .ok s => .ok s
    | .error (some e) => .error (.io e)
    | .error none => .error (.msg s!"could not resolve {host}:{port}")

/-- `ping_server` -/
def pingServer {σ : Type} (host : String) (port : UInt16)
    (resolved : Except ErrorKind (List (Except ErrorKind σ))) : Bool :=
  (tcpConnect host port resolved).isOk

/-- What `ClientConnection::new` keeps of its arguments. -/
structure Endpoint where
  host : String
  port : UInt16
  id : String
  key : Bytes

def Endpoint.new (host : String) (port : UInt16) (id passkey : String) : Endpoint where
  host := host
  port := port
  id := id
  key := passkey.toUTF8.data.toList

/-- The other end of a connection: what it sends, and how the calls on the socket come out. -/
structure Peer where
  incoming : Bytes
  results : List IoResult

def Peer.stream (peer : Peer) : BlockingStream := ⟨peer.incoming, [], peer.results⟩

/-- What one call of `connect` meets. -/
structure Dial where
  resolved : Except ErrorKind (List (Except ErrorKind Peer))
  /-- The first of `set_nodelay`, the timeouts and `try_clone` to fail. -/
  prepared : Option ErrorKind := none
  /-- The same for `set_nonblocking`. -/
  nonblocking : Option ErrorKind := none

/-- The `match` of `connect` on the response. -/
def acceptedStatus (resp : ConnectResponse) : Except Error Unit :=
  match resp.status with
  | some .newClient => .ok ()
  | some .returningClient => .ok ()
  | other =>
    let error := resp.error.getD ""
    .error (.msg s!"error connecting to server: {debugStatus other} {error}")

/-- The handshake of `connect`; `none` if the decoder panics. -/
def greet (memory : Memory) (id : String) (stream : BlockingStream) :
    Option (Except Error BlockingStream) :=
  match stream.writeProto (connectRequest id) with
  | (.error e, _) => some (.error (.io e))
  | (.ok (), stream) =>
    match stream.readProto ConnectResponse memory with
    | (.error (.err e), _) => some (.error e)
    | (.error (.proto e), _) => some (.error (.msg e.text))
    | (.error .crash, _) => none
    | (.ok resp, stream) =>
      match acceptedStatus resp with
      | .error e => some (.error e)
      | .ok () => some (.ok stream)

namespace Client

/-- `ClientConnection::new` -/
def new : Client where
  shared :=
    { reader := none, writer := none, socketAlive := false, shuttingDown := false, connections := 0 }
  reconnectThread := none
  threads := []
  session := .idle

/-- The stores at the end of `connect`. -/
def establish (client : Client) (readerCrypto writerCrypto : CryptoHandler) : Client :=
  let socket : TcpStream := ⟨client.shared.connections⟩
  { client with
    shared := { client.shared with
      reader := some (BackedReader.new readerCrypto socket)
      writer := some (BackedWriter.new writerCrypto socket)
      socketAlive := true
      connections := client.shared.connections + 1 } }

/-- `ClientConnection::connect`, with what is left on the stream of a connection that it has made. -/
def connect (memory : Memory) (xsalsa20poly1305 : Bytes → Cipher) (endpoint : Endpoint)
    (client : Client) (dial : Dial) : Option (Except Error BlockingStream × Client) :=
  match tcpConnect endpoint.host endpoint.port dial.resolved with
  | .error e => some (.error e, client)
  | .ok peer =>
    match dial.prepared with
    | some e => some (.error (.io e), client)
    | none =>
      match greet memory endpoint.id peer.stream with
      | none => none
      | some (.error e) => some (.error e, client)
      | some (.ok stream) =>
        match dial.nonblocking with
        | some e => some (.error (.io e), client)
        | none =>
          match CryptoHandler.new xsalsa20poly1305 endpoint.key serverClientNonceMsb with
          | .error e => some (.error (.crypto e), client)
          | .ok readerCrypto =>
            match CryptoHandler.new xsalsa20poly1305 endpoint.key clientServerNonceMsb with
            | .error e => some (.error (.crypto e), client)
            | .ok writerCrypto => some (.ok stream, client.establish readerCrypto writerCrypto)

end Client

end EternalTerminal
