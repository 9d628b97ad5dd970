import Xdbc.Actors
import Xdbc.Server.RuntimeEnv
import Xdbc.Client.RuntimeEnv
import Xdbc.Bytes.Sized
import Xdbc.Bytes.Text

/-!
# The handshake

Before buffers flow, the processes find each other. The client connects to the base port of the
server, sends the name of the table and the schema, each behind its size, and waits for a line. The
server reads both, starts its send threads, waits until each of them has opened its port, and writes
the line. Then the client starts its receive threads, and receive thread `thr` connects to the port
of send thread `thr` and writes its number.

The actors are the thread of `XDBCServer::serve`, the send threads, the thread of
`XClient::initialize` and `XClient::startReceiving`, and the receive threads. The network keeps the
connections that nobody has accepted yet, and the bytes that nobody has read.
-/

namespace Xdbc.Handshake

open Bytes Function

/-- The settings of the two processes. -/
structure Setup where
  senv : Server.RuntimeEnv
  cenv : Client.RuntimeEnv
  /-- `server_port`. -/
  serverPort : ℕ
  tableName : List UInt8
  schemaJSON : List UInt8

/-- A connection, by the socket of the client. -/
inductive Conn where
  | base
  | rcv (thr : ℕ)
  deriving DecidableEq

/-- The program points of `XDBCServer::serve`. -/
inductive Serve where
  /-- The acceptor of the base port is opened. -/
  | listen
  | accept
  | readTableNameSize
  | readTableName (dataSize : ℕ)
  | readSchemaSize
  | readSchema (dataSize : ℕ)
  /-- The send threads are started. -/
  | startSend (i : ℕ)
  /-- The loop that waits for the send threads. -/
  | awaitReady (acc sendThreadReadyQ : ℕ)
  | writeReady
  | join
  deriving DecidableEq

/-- The program points of `XDBCServer::send` in front of its loop. -/
inductive Send where
  /-- The thread has not been started. -/
  | absent
  /-- The acceptor is opened. -/
  | listen
  /-- `sendThreadReady[thr]->push(1)`. -/
  | signalReady
  | accept
  | readId (socket : Conn)
  | sending (socket : Conn) (readThreadId : List UInt8)
  deriving DecidableEq

/-- The program points of `XClient::initialize` and `XClient::startReceiving`. -/
inductive Init where
  | connect (tries : ℕ)
  | writeTableName
  | writeSchema
  | readReady
  /-- The receive threads are started. -/
  | startReceive (i : ℕ)
  | started
  /-- The base socket could not connect. -/
  | thrown
  deriving DecidableEq

/-- The program points of `XClient::receive` in front of its loop. -/
inductive Receive where
  /-- The thread has not been started. -/
  | absent
  | connect
  | writeId
  | receiving
  /-- The thread could not connect. -/
  | unconnected
  deriving DecidableEq

/-- The state of both processes and of the network. -/
structure State where
  serve : Serve
  baseSocket : Conn
  tableName : List UInt8
  schemaJSON : List UInt8
  send : ℕ → Send
  sendThreadReady : ℕ → List ℕ
  init : Init
  receive : ℕ → Receive
  /-- The connections that wait at a port to be accepted, `none` if nobody listens. -/
  acceptors : ℕ → Option (List Conn)
  /-- What has been written to the server and not been read. -/
  toServer : Conn → List UInt8
  /-- What has been written to the client's base socket and not been read. -/
  toClient : List UInt8

/-! ### Sockets -/

namespace State

variable (s : State)

/-- Open an acceptor. -/
def listen (port : ℕ) : State := { s with acceptors := update s.acceptors port (some []) }

/-- Accept the connection that has waited longest. -/
def accept (port : ℕ) : Option (Conn × State) :=
  match s.acceptors port with
  | some (c :: waiting) =>
    some (c, { s with acceptors := update s.acceptors port (some waiting) })
  | _ => none

/-- Connect to a port, if somebody listens. -/
def connect (port : ℕ) (c : Conn) : Option State :=
  (s.acceptors port).map fun waiting =>
    { s with acceptors := update s.acceptors port (some (waiting ++ [c])) }

/-- Write to a socket of the client. -/
def write (c : Conn) (bytes : List UInt8) : State :=
  { s with toServer := update s.toServer c (s.toServer c ++ bytes) }

/-- `boost::asio::read` of `n` bytes. -/
def read (c : Conn) (n : ℕ) : Option (List UInt8 × State) :=
  if n ≤ (s.toServer c).length then
    some ((s.toServer c).take n,
      { s with toServer := update s.toServer c ((s.toServer c).drop n) })
  else none

/-- `read_`: the buffer into which a line is read takes what there is, and is not kept. -/
def readLine (c : Conn) : Option (List UInt8 × State) :=
  if newline ∈ s.toServer c then
    some (s.toServer c, { s with toServer := update s.toServer c [] })
  else none

end State

/-! ### The actors -/

/-- The port of the server. -/
def basePort : ℕ := 1234

/-- `"Server ready\n"`. -/
def serverReady : List UInt8 := [83, 101, 114, 118, 101, 114, 32, 114, 101, 97, 100, 121, newline]

/-- The line a receive thread writes. -/
def idLine (thr : ℕ) : List UInt8 := printNat thr ++ [newline]

variable (setup : Setup)

/-- `XDBCServer::serve` up to the line that tells the client to go on. -/
def serve (s : State) : Option State :=
  match s.serve with
  | .listen => some { s.listen basePort with serve := .accept }
  | .accept => (s.accept basePort).map fun r =>
    { r.2 with serve := .readTableNameSize, baseSocket := r.1 }
  | .readTableNameSize => (s.read s.baseSocket 4).map fun r =>
    { r.2 with serve := .readTableName (ofLeBytes r.1) }
  | .readTableName dataSize => (s.read s.baseSocket dataSize).map fun r =>
    { r.2 with serve := .readSchemaSize, tableName := r.1 }
  | .readSchemaSize => (s.read s.baseSocket 4).map fun r =>
    { r.2 with serve := .readSchema (ofLeBytes r.1) }
  | .readSchema dataSize => (s.read s.baseSocket dataSize).map fun r =>
    { r.2 with serve := .startSend 0, schemaJSON := r.1 }
  | .startSend i =>
    if i < setup.senv.networkParallelism then
      some { s with serve := .startSend (i + 1), send := update s.send i .listen }
    else some { s with serve := .awaitReady 0 0 }
  | .awaitReady acc q =>
    if acc = setup.senv.networkParallelism then some { s with serve := .writeReady }
    else
      match s.sendThreadReady q with
      | [] => none
      | x :: xs => some { s with
        serve := .awaitReady (acc + x) ((q + 1) % setup.senv.networkParallelism)
        sendThreadReady := update s.sendThreadReady q xs }
  | .writeReady => some { s with serve := .join, toClient := s.toClient ++ serverReady }
  | .join => none

/-- `XDBCServer::send` up to its loop. -/
def send (thr : ℕ) (s : State) : Option State :=
  match s.send thr with
  | .absent => none
  | .listen => some { s.listen (basePort + thr + 1) with send := update s.send thr .signalReady }
  | .signalReady => some { s with
    send := update s.send thr .accept
    sendThreadReady := update s.sendThreadReady thr (s.sendThreadReady thr ++ [1]) }
  | .accept => (s.accept (basePort + thr + 1)).map fun r =>
    { r.2 with send := update r.2.send thr (.readId r.1) }
  | .readId socket => (s.readLine socket).map fun r =>
    { r.2 with send := update r.2.send thr (.sending socket (r.1.filter (· ≠ newline))) }
  | .sending _ _ => none

/-- `XClient::startReceiving`: `initialize`, with three more attempts to connect, and the start of the
receive threads. -/
def startReceiving (s : State) : Option State :=
  match s.init with
  | .connect tries =>
    match s.connect setup.serverPort .base with
    | some s' => some { s' with init := .writeTableName }
    | none => some { s with init := if tries < 3 then .connect (tries + 1) else .thrown }
  | .writeTableName => some { s.write .base (sized setup.tableName) with init := .writeSchema }
  | .writeSchema => some { s.write .base (sized setup.schemaJSON) with init := .readReady }
  | .readReady =>
    if newline ∈ s.toClient then some { s with toClient := [], init := .startReceive 0 } else none
  | .startReceive i =>
    if i < setup.cenv.rcvParallelism then
      some { s with init := .startReceive (i + 1), receive := update s.receive i .connect }
    else some { s with init := .started }
  | .started => none
  | .thrown => none

/-- `XClient::receive` up to its loop. -/
def receive (thr : ℕ) (s : State) : Option State :=
  match s.receive thr with
  | .absent => none
  | .connect =>
    match s.connect (setup.serverPort + thr + 1) (.rcv thr) with
    | some s' => some { s' with receive := update s'.receive thr .writeId }
    | none => some { s with receive := update s.receive thr .unconnected }
  | .writeId => some { s.write (.rcv thr) (idLine thr) with
    receive := update s.receive thr .receiving }
  | .receiving => none
  | .unconnected => none

/-- The threads of the two processes. -/
inductive Actor where
  | serve
  | send (thr : ℕ)
  | startReceiving
  | receive (thr : ℕ)
  deriving DecidableEq

/-- The handshake. -/
def handshake : Actors.System Actor State
  | .serve => serve setup
  | .send thr => send thr
  | .startReceiving => startReceiving setup
  | .receive thr => receive setup thr

/-- The two processes have been started. -/
def initial : State where
  serve := .listen
  baseSocket := .base
  tableName := []
  schemaJSON := []
  send _ := .absent
  sendThreadReady _ := []
  init := .connect 0
  receive _ := .absent
  acceptors _ := none
  toServer _ := []
  toClient := []

end Xdbc.Handshake
