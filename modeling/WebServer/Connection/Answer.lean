import WebServer.Connection.HttpServer

/-!
# What a dispatched request adds

Dispatching a request changes a connection in one way only: it queues the segments of one response at
the end of the output queue. `Session.dispatch_eq` says so, with the segments, the new services and
the calls made on the way collected in an `Answer`, so that no later proof looks into the handlers to
know what a connection looks like after a request.
-/

namespace WebServer

open Bytes HttpServer

/-- The effect of a request: calls made before anything is queued, and the queued segments. -/
structure Answer where
  services : Services
  calls : List Action
  segments : List OutSegment

namespace Session

/-! ## Small steps -/

section Fields

variable (session : Session)

@[simp] theorem emit_server (action : Action) : (session.emit action).server = session.server := rfl
@[simp] theorem emit_services (action : Action) :
    (session.emit action).services = session.services := rfl
@[simp] theorem emit_trace (action : Action) :
    (session.emit action).trace = session.trace ++ [action] := rfl
@[simp] theorem setServer_server (server : HttpServer) :
    (session.setServer server).server = server := rfl
@[simp] theorem setServer_services (server : HttpServer) :
    (session.setServer server).services = session.services := rfl
@[simp] theorem setServer_trace (server : HttpServer) :
    (session.setServer server).trace = session.trace := rfl
@[simp] theorem log_server (level : LogLevel) (message : Bytes) :
    (session.log level message).server = session.server := rfl
@[simp] theorem log_trace (level : LogLevel) (message : Bytes) :
    (session.log level message).trace = session.trace ++ [.log level message] := rfl
@[simp] theorem closeConnection_server :
    session.closeConnection.server = { session.server with closed := true } := rfl
@[simp] theorem closeConnection_trace :
    session.closeConnection.trace = session.trace ++ [.closeConnection] := rfl
@[simp] theorem consume_server (consumed : ℕ) : (session.consume consumed).server =
    { session.server with inBuffer := session.server.inBuffer.drop consumed } := rfl
@[simp] theorem consume_trace (consumed : ℕ) :
    (session.consume consumed).trace = session.trace := rfl
@[simp] theorem adoptKeepAlive_server (keepAlive : Bool) :
    (session.adoptKeepAlive keepAlive).server =
      { session.server with
        keepAlive := keepAlive
        closeAfterFlush := if keepAlive then session.server.closeAfterFlush else true } := rfl
@[simp] theorem adoptKeepAlive_trace (keepAlive : Bool) :
    (session.adoptKeepAlive keepAlive).trace = session.trace := rfl
@[simp] theorem adoptKeepAlive_services (keepAlive : Bool) :
    (session.adoptKeepAlive keepAlive).services = session.services := rfl
@[simp] theorem outQueueExceeded_server : session.outQueueExceeded.server =
    { session.server with closeAfterFlush := true } := rfl
@[simp] theorem outQueueExceeded_trace : ∃ message, session.outQueueExceeded.trace =
    session.trace ++ [.log .warning message] := ⟨_, rfl⟩

/-- Make the calls of an answer, queue its segments and adopt its services. -/
def answerWith (answer : Answer) : Session where
  server := { session.server with outQueue := session.server.outQueue ++ answer.segments }
  services := answer.services
  trace := session.trace ++ (answer.calls ++ answer.segments.map .enqueue)

end Fields

/-! ## The answer to a request -/

def fileAnswer (env : Env) (keepAlive : Bool) (services : Services) (path : Bytes) : Answer :=
  match env.openFile (cString path) with
  | none =>
    { services := services
      calls := [.log .warning (lit "打开静态文件失败: " ++ path)]
      segments := [.bytes
        (fileNotFound (lit "404 Not Found: The requested file does not exist.")).toString] }
  | some opened =>
    match opened.stat with
    | some ⟨true, size⟩ =>
      { services := services
        calls := [.openFile path opened.fd]
        segments := [.bytes (fileHeaders path size keepAlive).toStringHeaders,
          .file opened.fd opened.content 0 size] }
    | _ =>
      { services := services
        calls := [.openFile path opened.fd, .closeFile opened.fd]
        segments := [.bytes (fileNotFound (lit "404 Not Found")).toString] }

/-- The router's verdict on a request, with the response and services it leaves. -/
def route (env : Env) (keepAlive : Bool) (clientIp : Bytes) (services : Services)
    (request : HttpRequest) : Option (HttpResponse × Services) :=
  Router.dispatch getRouter request (initialResponse keepAlive) clientIp env.now env.cleanupNow
    (env.others services)

def answer (env : Env) (keepAlive : Bool) (clientIp : Bytes) (services : Services)
    (request : HttpRequest) : Answer :=
  match route env keepAlive clientIp services request with
  | none =>
    { services := env.others services
      calls := []
      segments := [.bytes (routeNotFound (initialResponse keepAlive)).toString] }
  | some (response, services) =>
    if response.hasFile then fileAnswer env keepAlive services response.filePath
    else { services := services, calls := [], segments := [.bytes response.toString] }

theorem sendFileResponse_eq (session : Session) (env : Env) (path : Bytes) :
    session.sendFileResponse env path =
      session.answerWith (fileAnswer env session.server.keepAlive session.services path) := by
  unfold sendFileResponse fileAnswer
  cases env.openFile (cString path) with
  | none => simp [answerWith, enqueueResponse, enqueue, log, emit, setServer]
  | some opened =>
    obtain ⟨fd, stat, content⟩ := opened
    rcases stat with _ | ⟨_ | _, size⟩ <;>
      simp [answerWith, enqueueResponse, enqueue, emit, setServer]

/-- A dispatched request queues the segments of its answer and changes nothing else. -/
theorem dispatch_eq (session : Session) (env : Env) (request : HttpRequest) :
    session.dispatch env request =
      (session.emit (.dispatch request)).answerWith
        (answer env session.server.keepAlive session.server.clientIp session.services request) := by
  unfold dispatch answer route
  simp only [emit_server, emit_services]
  cases Router.dispatch getRouter request (initialResponse session.server.keepAlive)
      session.server.clientIp env.now env.cleanupNow (env.others session.services) with
  | none => simp [answerWith, enqueueResponse, enqueue, emit, setServer]
  | some result =>
    obtain ⟨response, services⟩ := result
    by_cases hfile : response.hasFile
    · simp only [hfile, if_true, sendFileResponse_eq]
      rfl
    · simp [hfile, answerWith, enqueueResponse, enqueue, emit, setServer]

theorem reject_eq (session : Session) (errorCode : ℕ) :
    session.reject errorCode =
      { server := { session.server with
          outQueue := session.server.outQueue ++ [.bytes (parseErrorResponse errorCode).toString]
          closeAfterFlush := true }
        services := session.services
        trace := session.trace ++
          [.reject errorCode, .enqueue (.bytes (parseErrorResponse errorCode).toString)] } := by
  simp [reject, enqueueResponse, enqueue, emit, setServer]

/-! ## Facts about answers -/

/-- The calls made before a response is queued concern files and the log only. -/
def IsFileCall : Action → Prop
  | .openFile .. | .closeFile _ | .log .. => True
  | _ => False

theorem isFileCall_of_mem_fileAnswer {env : Env} {keepAlive : Bool} {services : Services}
    {path : Bytes} {action : Action}
    (h : action ∈ (fileAnswer env keepAlive services path).calls) : IsFileCall action := by
  unfold fileAnswer at h
  split at h
  · obtain rfl := List.mem_singleton.mp h
    trivial
  · split at h
    · obtain rfl := List.mem_singleton.mp h
      trivial
    · rcases List.mem_cons.mp h with rfl | h
      · trivial
      · obtain rfl := List.mem_singleton.mp h
        trivial

theorem isFileCall_of_mem_answer {env : Env} {keepAlive : Bool} {clientIp : Bytes}
    {services : Services} {request : HttpRequest} {action : Action}
    (h : action ∈ (answer env keepAlive clientIp services request).calls) : IsFileCall action := by
  unfold answer at h
  split at h
  · exact absurd h (by simp)
  · split at h
    · exact isFileCall_of_mem_fileAnswer h
    · exact absurd h (by simp)

theorem length_segments_fileAnswer (env : Env) (keepAlive : Bool) (services : Services)
    (path : Bytes) : (fileAnswer env keepAlive services path).segments.length = 1 ∨
      (fileAnswer env keepAlive services path).segments.length = 2 := by
  unfold fileAnswer
  split
  · exact .inl rfl
  · split
    · exact .inr rfl
    · exact .inl rfl

/-- A request is answered with one or two segments. -/
theorem length_segments_answer (env : Env) (keepAlive : Bool) (clientIp : Bytes)
    (services : Services) (request : HttpRequest) :
    (answer env keepAlive clientIp services request).segments.length = 1 ∨
      (answer env keepAlive clientIp services request).segments.length = 2 := by
  unfold answer
  split
  · exact .inl rfl
  · split
    · exact length_segments_fileAnswer ..
    · exact .inl rfl

/-! ## Turns of the request loop -/

/-- The session after a complete request has been parsed, answered and removed from the buffer. -/
def afterRequest (session : Session) (env : Env) (request : HttpRequest) (consumed : ℕ) : Session :=
  (((session.adoptKeepAlive request.keepAlive).emit (.dispatch request)).answerWith
    (answer env request.keepAlive session.server.clientIp session.services request)).consume consumed

theorem processTurn_needMore {env : Env} {session : Session}
    (h : HttpRequest.parse session.server.inBuffer = .needMore) :
    processTurn env session = .exit session := by
  unfold processTurn
  rw [h]

theorem processTurn_error {env : Env} {session : Session} {errorCode : ℕ}
    (h : HttpRequest.parse session.server.inBuffer = .error errorCode) :
    processTurn env session = .exit (session.reject errorCode) := by
  unfold processTurn
  rw [h]

/-- What a turn does with a complete request: stop at the last request of the connection or when too
much output is queued, else go on. -/
theorem processTurn_ok {env : Env} {session : Session} {request : HttpRequest} {consumed : ℕ}
    (h : HttpRequest.parse session.server.inBuffer = .ok request consumed) :
    processTurn env session =
      if request.keepAlive = false then .exit (session.afterRequest env request consumed)
      else if maxOutSegments < (session.afterRequest env request consumed).server.outQueue.length then
        .exit (session.afterRequest env request consumed).outQueueExceeded
      else .next (session.afterRequest env request consumed) := by
  unfold processTurn
  rw [h]
  simp only [dispatch_eq, adoptKeepAlive_server, adoptKeepAlive_services, afterRequest,
    Bool.not_eq_true]
  rfl

/-- The ways a turn of `processRequests` can go. -/
inductive Turned (env : Env) (session : Session) : Turn Session Session → Prop where
  | starved (hparse : HttpRequest.parse session.server.inBuffer = .needMore) :
      Turned env session (.exit session)
  | refused {errorCode : ℕ} (hparse : HttpRequest.parse session.server.inBuffer = .error errorCode) :
      Turned env session (.exit (session.reject errorCode))
  | last {request : HttpRequest} {consumed : ℕ}
      (hparse : HttpRequest.parse session.server.inBuffer = .ok request consumed)
      (hkeep : request.keepAlive = false) :
      Turned env session (.exit (session.afterRequest env request consumed))
  | full {request : HttpRequest} {consumed : ℕ}
      (hparse : HttpRequest.parse session.server.inBuffer = .ok request consumed)
      (hkeep : request.keepAlive = true)
      (hfull : maxOutSegments <
        (session.afterRequest env request consumed).server.outQueue.length) :
      Turned env session (.exit (session.afterRequest env request consumed).outQueueExceeded)
  | next {request : HttpRequest} {consumed : ℕ}
      (hparse : HttpRequest.parse session.server.inBuffer = .ok request consumed)
      (hkeep : request.keepAlive = true)
      (hroom : (session.afterRequest env request consumed).server.outQueue.length ≤
        maxOutSegments) :
      Turned env session (.next (session.afterRequest env request consumed))

theorem processTurn_turned (env : Env) (session : Session) :
    Turned env session (processTurn env session) := by
  cases hparse : HttpRequest.parse session.server.inBuffer with
  | needMore =>
    rw [processTurn_needMore hparse]
    exact .starved hparse
  | error errorCode =>
    rw [processTurn_error hparse]
    exact .refused hparse
  | ok request consumed =>
    rw [processTurn_ok hparse]
    split
    · rename_i hkeep
      exact .last hparse hkeep
    · rename_i hkeep
      split
      · rename_i hfull
        exact .full hparse (by simpa using hkeep) hfull
      · rename_i hroom
        exact .next hparse (by simpa using hkeep) (Nat.le_of_not_lt hroom)

end Session

end WebServer
