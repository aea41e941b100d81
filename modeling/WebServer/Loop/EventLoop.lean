import WebServer.Connection.Events
import WebServer.Loop.TcpTimer

/-!
# One event loop

An `EventLoop` owns the connections it accepted. Its inputs are what `epoll_wait` reports, one input
for each entry of a batch, the check for expired timers that ends an iteration, and the end of the
loop; a run may interleave them in any order, which includes every run of whole iterations.

Every connection has a number, because descriptors are reused. The trace records for each call on a
socket on whose behalf it is made and which connection `_clients` holds for the descriptor at that
moment.
-/

namespace WebServer

open Bytes

/-! ## State -/

/-- `KEEP_ALIVE_TIMEOUT_MS`. -/
def keepAliveTimeoutMs : ℤ := 30000

/-- An entry of `_clients`: the `HttpServer` object, with its number and the time of its `accept`. -/
structure Client where
  conn : ℕ
  acceptedAt : Time
  server : HttpServer

/-- The closure of `setupTimer`, which holds the descriptor. The connection it is made for is kept
beside it; only the trace reads it. -/
structure TimeoutCallback where
  fd : ℕ
  conn : ℕ
  deriving DecidableEq

/-- What the loop does. `conn` is the connection on whose behalf a call is made, `owner` the one that
`_clients` holds for the descriptor; for the calls of `closeConnection` it is the one taken out of
`_clients` by the same call. -/
inductive LoopCall where
  | accept (fd conn : ℕ) (clientIp : Bytes)
  | epollAdd (fd conn : ℕ) (events : EpollEvents)
  | connection (fd conn : ℕ) (owner : Option ℕ) (action : Action)
  | timeout (fd conn : ℕ) (owner : Option ℕ)
  | epollDel (fd conn : ℕ) (owner : Option ℕ)
  | close (fd conn : ℕ) (owner : Option ℕ)
  | log (level : LogLevel) (message : Bytes)

/-- A call and the clock when it was made. -/
structure TimedCall where
  now : Time
  call : LoopCall

structure EventLoop where
  id : ℕ
  clients : AList fun _ : ℕ ↦ Client
  timer : TcpTimer TimeoutCallback
  services : Services
  now : Time
  nextConn : ℕ
  running : Bool
  exited : Bool
  trace : List TimedCall

/-- The result of `accept`, with the clock when it returns. -/
inductive AcceptResult where
  | connected (now : Time) (fd : ℕ) (clientIp : Bytes)
  | failed (errno : ℕ)

/-- One entry of `epoll_wait` for a connection, and what the calls made for it return; `sends` are the
results for the flush after a read, `writeSends` those for the flush of `EPOLLOUT`. -/
structure Readiness where
  now : Time
  fd : ℕ
  events : EpollEvents
  recvs : List RecvResult
  envs : ℕ → Env
  sends : ℕ → SysResult
  writeSends : ℕ → SysResult

inductive LoopInput where
  | accept (results : List AcceptResult)
  | ready (readiness : Readiness)
  | wakeup
  | check (now : Time)
  | exit

namespace EventLoop

def new (id : ℕ) (services : Services) : EventLoop where
  id := id
  clients := ∅
  timer := .new
  services := services
  now := 0
  nextConn := 0
  running := true
  exited := false
  trace := []

variable (loop : EventLoop)

/-- The connection that `_clients` holds for a descriptor. -/
def owner (fd : ℕ) : Option ℕ := (loop.clients.lookup fd).map Client.conn

def emit (call : LoopCall) : EventLoop := { loop with trace := loop.trace ++ [⟨loop.now, call⟩] }

/-- The text of a log line of this loop. -/
def logText (message : Bytes) : Bytes := lit "loop[" ++ decimal loop.id ++ lit "] " ++ message

def log (level : LogLevel) (message : Bytes) : EventLoop :=
  loop.emit (.log level (loop.logText message))

def setTimer (timer : TcpTimer TimeoutCallback) : EventLoop := { loop with timer := timer }

def setClients (clients : AList fun _ : ℕ ↦ Client) : EventLoop := { loop with clients := clients }

/-! ## Accepting -/

def setupTimer (fd conn : ℕ) (timeout : ℤ) : EventLoop :=
  loop.setTimer (loop.timer.addTimer loop.now fd timeout ⟨fd, conn⟩)

/-- The mask a connection is registered with. -/
def acceptEvents : EpollEvents where
  epollin := true
  epollout := false
  epollrdhup := true
  epollerr := false
  epollhup := false
  epollet := true

/-- A turn of the loop in `acceptConnection` that got a connection. -/
def acceptOne (now : Time) (fd : ℕ) (clientIp : Bytes) : EventLoop :=
  let loop := { loop with now := now, nextConn := loop.nextConn + 1 }
  let conn := loop.nextConn - 1
  let loop := (loop.emit (.accept fd conn clientIp)).emit (.epollAdd fd conn acceptEvents)
  let loop := loop.setClients (loop.clients.insert fd ⟨conn, now, HttpServer.new fd clientIp⟩)
  (loop.setupTimer fd conn keepAliveTimeoutMs).log .debug (lit "新连接 fd: " ++ decimal fd)

/-- `acceptConnection`; behind the end of its results `accept` reports `EAGAIN`. -/
def acceptConnection : List AcceptResult → EventLoop → EventLoop
  | [], loop => loop
  | .connected now fd clientIp :: results, loop =>
    acceptConnection results (loop.acceptOne now fd clientIp)
  | .failed errno :: _, loop =>
    if errno = eagain then loop
    else loop.emit (.log .error (lit "accept error errno=" ++ decimal errno))

/-! ## Closing -/

/-- `closeConnection(fd)`, called on behalf of `conn`. -/
def closeConnection (conn fd : ℕ) : EventLoop :=
  match loop.clients.lookup fd with
  | none => loop
  | some client =>
    let loop := (loop.setClients (loop.clients.erase fd)).setTimer (loop.timer.removeTimer fd)
    let loop := loop.emit (.epollDel fd conn (some client.conn))
    let loop := loop.emit (.close fd conn (some client.conn))
    loop.log .debug (lit "连接关闭 fd: " ++ decimal fd)

/-- `closeAllConnections`, which leaves the timers alone. -/
def closeAllConnections : EventLoop :=
  let closed := loop.clients.entries.foldl (fun loop entry ↦
    (loop.emit (.epollDel entry.1 entry.2.conn (loop.owner entry.1))).emit
      (.close entry.1 entry.2.conn (loop.owner entry.1))) loop
  closed.setClients ∅

/-! ## Events of connections -/

/-- Carry out a call of a connection object: a close goes through `closeConnection`. -/
def perform (fd conn : ℕ) (loop : EventLoop) : Action → EventLoop
  | .closeConnection => loop.closeConnection conn fd
  | action => loop.emit (.connection fd conn (loop.owner fd) action)

/-- Keep the object of a connection that is still in `_clients`. -/
def storeServer (fd conn : ℕ) (server : HttpServer) : EventLoop :=
  match loop.clients.lookup fd with
  | some client =>
    if client.conn = conn then
      loop.setClients (loop.clients.insert fd { client with server := server })
    else loop
  | none => loop

/-- The handlers that `handleEvent` calls on the object of a connection. -/
def handlers (readiness : Readiness) (session : Session) : Session :=
  let session :=
    if readiness.events.epollin ∨ readiness.events.epollrdhup then
      session.handleRead readiness.recvs readiness.envs readiness.sends
    else session
  if readiness.events.epollout then session.handleWrite readiness.writeSends else session

def handleEvent (readiness : Readiness) : EventLoop :=
  let loop := { loop with now := readiness.now }
  match loop.clients.lookup readiness.fd with
  | none => loop
  | some client =>
    if readiness.events.epollerr ∨ readiness.events.epollhup then
      loop.closeConnection client.conn readiness.fd
    else
      let session := handlers readiness ⟨client.server, loop.services, []⟩
      let loop := { loop with services := session.services }
      let loop := session.trace.foldl (perform client.server.fd client.conn) loop
      loop.storeServer readiness.fd client.conn session.server

/-! ## Timers -/

def timeoutCallback (callback : TimeoutCallback) (loop : EventLoop) : EventLoop :=
  let loop := loop.emit (.timeout callback.fd callback.conn (loop.owner callback.fd))
  let loop := loop.log .info (lit "连接超时关闭 fd: " ++ decimal callback.fd)
  loop.closeConnection callback.conn callback.fd

def checkExpired (now : Time) : EventLoop :=
  TcpTimer.checkExpired timer setTimer timeoutCallback now { loop with now := now }

/-! ## The loop -/

/-- One input. After the wakeup the rest of the batch is left, and after the exit nothing happens. -/
def step (loop : EventLoop) (input : LoopInput) : EventLoop :=
  if loop.exited then loop
  else
    match input with
    | .accept results => if loop.running then acceptConnection results loop else loop
    | .ready readiness => if loop.running then loop.handleEvent readiness else loop
    | .wakeup => { loop with running := false }
    | .check now => loop.checkExpired now
    | .exit =>
      { loop.closeAllConnections.log .info (lit "exit") with running := false, exited := true }

end EventLoop

end WebServer
