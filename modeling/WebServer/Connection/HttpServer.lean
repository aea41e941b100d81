import WebServer.Foundation.Execution
import WebServer.Http.RequestStability
import WebServer.Service.AsyncLogger
import WebServer.Service.Handlers

/-!
# One connection

The object the server keeps for each TCP connection: an input buffer that survives events, a queue of
output segments, and the flags that steer its end. A `Session` is this object together with the
shared services it uses and the calls it has made so far.

System calls are answered by the inputs of an event. `recv` takes its results from a list and reports
`EAGAIN` behind its end; `send` and `sendfile` take theirs from a sequence; the i-th request of an
event meets the i-th `Env`, which says what other threads did to the services meanwhile, what the
clock shows and what `open` and `fstat` answer.
-/

namespace WebServer

open Bytes

/-! ## System calls -/

/-- The error number of a call that would block. -/
def eagain : ℕ := 11

/-- The result of `recv`; an empty string is the result 0 at the end of the stream. -/
inductive RecvResult where
  | received (data : Bytes)
  | failed (errno : ℕ)
  deriving DecidableEq

/-- The return value of a system call, and `errno` after it. -/
structure SysResult where
  ret : ℤ
  errno : ℕ
  deriving DecidableEq

namespace SysResult

def wouldBlock (result : SysResult) : Bool := result.ret < 0 ∧ result.errno = eagain

/-- How many bytes a call moved that was asked to move `requested` bytes. -/
def count (result : SysResult) (requested : ℕ) : ℕ := min result.ret.toNat requested

theorem count_pos {result : SysResult} {requested : ℕ} (hret : 0 < result.ret)
    (hrequested : 0 < requested) : 0 < result.count requested := by
  unfold count
  omega

theorem count_le (result : SysResult) (requested : ℕ) : result.count requested ≤ requested :=
  min_le_right _ _

end SysResult

structure Stat where
  isRegular : Bool
  size : ℕ

/-- A successful `open`: the descriptor, what `fstat` says (`none` is an error) and the bytes of the
file by offset. -/
structure OpenedFile where
  fd : ℕ
  stat : Option Stat
  content : ℕ → Byte

/-- What one dispatched request meets outside its connection. -/
structure Env where
  others : Services → Services
  now : Time
  cleanupNow : Time
  openFile : Bytes → Option OpenedFile

/-- The epoll event bits the server uses. -/
structure EpollEvents where
  epollin : Bool
  epollout : Bool
  epollrdhup : Bool
  epollerr : Bool
  epollhup : Bool
  epollet : Bool
  deriving DecidableEq

/-! ## State -/

/-- An output segment; a file segment carries the content behind its descriptor. -/
inductive OutSegment where
  | bytes (text : Bytes)
  | file (fileFd : ℕ) (content : ℕ → Byte) (fileOffset fileRemaining : ℕ)

structure HttpServer where
  fd : ℕ
  clientIp : Bytes
  inBuffer : Bytes
  outQueue : List OutSegment
  writeRegistered : Bool
  keepAlive : Bool
  closeAfterFlush : Bool
  closed : Bool

/-- What a connection does that can be seen from outside. The socket calls carry their result and
the bytes they moved; `dispatch` and `reject` mark the answered parser verdicts. -/
inductive Action where
  | recv (result : RecvResult)
  | send (result : SysResult) (accepted : Bytes)
  | sendfile (result : SysResult) (fileFd : ℕ) (accepted : Bytes)
  | dispatch (request : HttpRequest)
  | reject (errorCode : ℕ)
  | enqueue (segment : OutSegment)
  | openFile (path : Bytes) (fileFd : ℕ)
  | closeFile (fileFd : ℕ)
  | updateEvents (events : EpollEvents)
  | closeConnection
  | log (level : LogLevel) (message : Bytes)

structure Session where
  server : HttpServer
  services : Services
  trace : List Action

namespace HttpServer

/-- Upper bound of the input buffer of one connection. -/
def maxInBuffer : ℕ := 64 * 1024 * 1024

/-- Upper bound of the number of output segments. -/
def maxOutSegments : ℕ := 128

def new (fd : ℕ) (clientIp : Bytes) : HttpServer where
  fd := fd
  clientIp := clientIp
  inBuffer := []
  outQueue := []
  writeRegistered := false
  keepAlive := false
  closeAfterFlush := false
  closed := false

end HttpServer

namespace OutSegment

/-- The number of bytes of a segment that are still to be sent. -/
def remaining : OutSegment → ℕ
  | bytes text => text.length
  | file _ _ _ fileRemaining => fileRemaining

/-- The bytes of `content` from `offset` on. -/
def fileBytes (content : ℕ → Byte) (offset count : ℕ) : Bytes :=
  (List.range count).map fun i ↦ content (offset + i)

/-- The bytes a segment stands for. -/
def denote : OutSegment → Bytes
  | bytes text => text
  | file _ content fileOffset fileRemaining => fileBytes content fileOffset fileRemaining

def denoteQueue (queue : List OutSegment) : Bytes := queue.flatMap denote

end OutSegment

namespace Session

open HttpServer

def emit (session : Session) (action : Action) : Session :=
  { session with trace := session.trace ++ [action] }

def log (session : Session) (level : LogLevel) (message : Bytes) : Session :=
  session.emit (.log level message)

def setServer (session : Session) (server : HttpServer) : Session :=
  { session with server := server }

/-- `_loop->closeConnection(_fd)`: the call, and the mark it leaves on this object. -/
def closeConnection (session : Session) : Session :=
  (session.setServer { session.server with closed := true }).emit .closeConnection

/-- `_outQueue.push_back(segment)`. -/
def enqueue (session : Session) (segment : OutSegment) : Session :=
  (session.setServer
    { session.server with outQueue := session.server.outQueue ++ [segment] }).emit
    (.enqueue segment)

def fdText (session : Session) : Bytes := decimal session.server.fd

/-! ## Reading -/

def recvIntoBuffer : List RecvResult → Session → Session
  | [], session => session.emit (.recv (.failed eagain))
  | .received data :: results, session =>
    let session := session.emit (.recv (.received data))
    if data = [] then session.closeConnection
    else
      let session := session.setServer
        { session.server with inBuffer := session.server.inBuffer ++ data }
      if maxInBuffer < session.server.inBuffer.length then
        (session.log .warning (lit "输入缓冲超限, 关闭连接 fd: " ++ session.fdText)).closeConnection
      else recvIntoBuffer results session
  | .failed errno :: _, session =>
    let session := session.emit (.recv (.failed errno))
    if errno = eagain then session
    else
      (session.log .warning
        (lit "recv 错误 fd: " ++ session.fdText ++ lit " errno: " ++ decimal errno)).closeConnection

/-! ## Responses -/

def connectionValue (keepAlive : Bool) : Bytes :=
  if keepAlive then lit "keep-alive" else lit "close"

/-- The headers by which a response says whether the connection is kept. -/
def addKeepAlive (response : HttpResponse) (keepAlive : Bool) : HttpResponse :=
  let response := response.addHeader (lit "Connection") (connectionValue keepAlive)
  if keepAlive then response.addHeader (lit "Keep-Alive") (lit "timeout=30") else response

def fileHeaders (path : Bytes) (size : ℕ) (keepAlive : Bool) : HttpResponse :=
  let response := HttpResponse.new.setStatus 200
  let response := response.addHeader (lit "Content-Type") (mimeType path)
  let response := response.addHeader (lit "Content-Length") (decimal size)
  addKeepAlive response keepAlive

def enqueueResponse (session : Session) (response : HttpResponse) : Session :=
  session.enqueue (.bytes response.toString)

def fileNotFound (text : Bytes) : HttpResponse := (HttpResponse.new.setStatus 404).setBody text

def sendFileResponse (session : Session) (env : Env) (path : Bytes) : Session :=
  match env.openFile (cString path) with
  | none =>
    (session.log .warning (lit "打开静态文件失败: " ++ path)).enqueueResponse
      (fileNotFound (lit "404 Not Found: The requested file does not exist."))
  | some opened =>
    let session := session.emit (.openFile path opened.fd)
    match opened.stat with
    | some ⟨true, size⟩ =>
      let headers := fileHeaders path size session.server.keepAlive
      (session.enqueue (.bytes headers.toStringHeaders)).enqueue
        (.file opened.fd opened.content 0 size)
    | _ =>
      (session.emit (.closeFile opened.fd)).enqueueResponse (fileNotFound (lit "404 Not Found"))

/-- The response `dispatch` hands to the router. -/
def initialResponse (keepAlive : Bool) : HttpResponse :=
  addKeepAlive (HttpResponse.new.addHeader (lit "Content-Type") (lit "text/plain; charset=utf-8"))
    keepAlive

def routeNotFound (response : HttpResponse) : HttpResponse :=
  (response.setStatus 404).setBody
    (lit "404 Not Found: The requested resource was not found on this server.")

def dispatch (session : Session) (env : Env) (request : HttpRequest) : Session :=
  let session := session.emit (.dispatch request)
  let session := { session with services := env.others session.services }
  let response := initialResponse session.server.keepAlive
  match Router.dispatch getRouter request response session.server.clientIp env.now env.cleanupNow
      session.services with
  | none => session.enqueueResponse (routeNotFound response)
  | some (response, services) =>
    let session := { session with services := services }
    if response.hasFile then session.sendFileResponse env response.filePath
    else session.enqueueResponse response

def parseErrorResponse (errorCode : ℕ) : HttpResponse :=
  let response := HttpResponse.new.setStatus errorCode
  let response := response.addHeader (lit "Content-Type") (lit "text/plain; charset=utf-8")
  let response := response.addHeader (lit "Connection") (lit "close")
  response.setBody (lit "HTTP parse error (" ++ decimal errorCode ++ lit ")")

/-- The answer to a parse error. -/
def reject (session : Session) (errorCode : ℕ) : Session :=
  let session := (session.emit (.reject errorCode)).enqueueResponse (parseErrorResponse errorCode)
  session.setServer { session.server with closeAfterFlush := true }

/-! ## Processing requests -/

/-- `_keepAlive = req.keepAlive()`, and the close decision that goes with it. -/
def adoptKeepAlive (session : Session) (keepAlive : Bool) : Session :=
  session.setServer
    { session.server with
      keepAlive := keepAlive
      closeAfterFlush := if keepAlive then session.server.closeAfterFlush else true }

def consume (session : Session) (consumed : ℕ) : Session :=
  session.setServer { session.server with inBuffer := session.server.inBuffer.drop consumed }

def outQueueExceeded (session : Session) : Session :=
  let session := session.log .warning (lit "输出队列超限, 关闭连接 fd: " ++ session.fdText)
  session.setServer { session.server with closeAfterFlush := true }

/-- One turn of the loop in `processRequests`. -/
def processTurn (env : Env) (session : Session) : Turn Session Session :=
  match HttpRequest.parse session.server.inBuffer with
  | .needMore => .exit session
  | .error errorCode => .exit (session.reject errorCode)
  | .ok request consumed =>
    let session := session.adoptKeepAlive request.keepAlive
    let session := (session.dispatch env request).consume consumed
    if ¬ session.server.keepAlive then .exit session
    else if maxOutSegments < session.server.outQueue.length then .exit session.outQueueExceeded
    else .next session

end Session

end WebServer
