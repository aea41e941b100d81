import WebServer.Connection.Events
import WebServer.Foundation.Execution

/-!
# What a connection depends on

The calls a connection made before do not change what it does next, and it meets the services only
through its handlers. `Session.seen` is a session with other calls recorded in front of its own and
with other services: every part of an event does the same to it, where the environments of
`processRequests` bring along the services the handlers are to meet.
-/

namespace WebServer

open Bytes HttpServer OutSegment Execution

/-- Other threads leave the services as they are left elsewhere. -/
def Env.meeting (env : Env) (services : Services) : Env :=
  { env with others := fun _ ↦ env.others services }

namespace Session

/-- The same object, with calls recorded before its own and with other services. -/
def seen (before : List Action) (services : Services) (session : Session) : Session where
  server := session.server
  services := services
  trace := before ++ session.trace

variable (before : List Action) (services : Services) (session : Session)

@[simp] theorem seen_server : (session.seen before services).server = session.server := rfl
@[simp] theorem seen_services : (session.seen before services).services = services := rfl
@[simp] theorem seen_trace : (session.seen before services).trace = before ++ session.trace := rfl
@[simp] theorem fdText_seen : (session.seen before services).fdText = session.fdText := rfl

@[simp]
theorem emit_seen (action : Action) :
    (session.seen before services).emit action = (session.emit action).seen before services := by
  simp [seen, emit]

@[simp]
theorem setServer_seen (server : HttpServer) :
    (session.seen before services).setServer server =
      (session.setServer server).seen before services := rfl

@[simp]
theorem log_seen (level : LogLevel) (message : Bytes) :
    (session.seen before services).log level message =
      (session.log level message).seen before services := emit_seen ..

@[simp]
theorem closeConnection_seen : (session.seen before services).closeConnection =
    session.closeConnection.seen before services := by
  simp [closeConnection]

/-! ## Reading -/

theorem recvIntoBuffer_seen (recvs : List RecvResult) :
    recvIntoBuffer recvs (session.seen before services) =
      (recvIntoBuffer recvs session).seen before services := by
  induction recvs generalizing session with
  | nil => exact emit_seen ..
  | cons result recvs ih =>
    cases result with
    | received data =>
      unfold recvIntoBuffer
      simp only [emit_seen, setServer_seen, seen_server, closeConnection_seen, log_seen, fdText_seen, ih,
        apply_ite (seen before services)]
    | failed errno =>
      unfold recvIntoBuffer
      simp only [emit_seen, closeConnection_seen, log_seen, fdText_seen, apply_ite (seen before services)]

/-! ## Processing -/

theorem reject_seen (errorCode : ℕ) :
    (session.seen before services).reject errorCode =
      (session.reject errorCode).seen before services := by
  simp [reject_eq, seen]

/-- The request is answered with the services it met elsewhere, and leaves the same ones. -/
theorem afterRequest_seen (env : Env) (request : HttpRequest) (consumed : ℕ) :
    (session.seen before services).afterRequest (env.meeting session.services) request consumed =
      (session.afterRequest env request consumed).seen before
        (session.afterRequest env request consumed).services := by
  have hanswer : answer (env.meeting session.services) request.keepAlive session.server.clientIp services
      request = answer env request.keepAlive session.server.clientIp session.services request := rfl
  unfold afterRequest
  simp only [adoptKeepAlive, setServer_seen, emit_seen, seen_server, seen_services]
  rw [hanswer]
  simp [answerWith, consume, seen, setServer]

theorem outQueueExceeded_seen : (session.seen before services).outQueueExceeded =
    session.outQueueExceeded.seen before services := by
  simp [outQueueExceeded]

/-- A turn does the same where its handler meets the same services. -/
theorem processTurn_seen (env : Env) :
    ∃ services', processTurn (env.meeting session.services) (session.seen before services) =
      (processTurn env session).map
        (fun session ↦ session.seen before session.services) (fun session ↦ session.seen before services') := by
  have hbuffer : (session.seen before services).server.inBuffer = session.server.inBuffer := rfl
  cases hparse : HttpRequest.parse session.server.inBuffer with
  | needMore =>
    apply Exists.intro services
    rw [processTurn_needMore hparse, processTurn_needMore (hbuffer ▸ hparse)]
    rfl
  | error errorCode =>
    apply Exists.intro services
    rw [processTurn_error hparse, processTurn_error (hbuffer ▸ hparse), reject_seen]
    rfl
  | ok request consumed =>
    apply Exists.intro (session.afterRequest env request consumed).services
    rw [processTurn_ok hparse, processTurn_ok (hbuffer ▸ hparse), afterRequest_seen, outQueueExceeded_seen]
    by_cases hkeep : request.keepAlive = false
    · simp [hkeep, Turn.map]
    · by_cases hfull : maxOutSegments <
          (session.afterRequest env request consumed).server.outQueue.length
      · simp [hkeep, hfull, Turn.map]
      · simp [hkeep, hfull, Turn.map]

/-- Environments can be found in which the loop does the same. -/
theorem processRequests_seen (envs : ℕ → Env) :
    ∃ envs' services', processRequests envs' (session.seen before services) =
      (processRequests envs session).seen before services' := by
  suffices h : ∀ services, ∃ envs' services', processLoop.run (session.seen before services, envs') =
      (processLoop.run (session, envs)).seen before services' from h services
  apply processLoop.run_induct (motive := fun state result ↦ ∀ services, ∃ envs' services',
    processLoop.run (state.1.seen before services, envs') = result.seen before services')
    _ _ (session, envs)
  · intro ⟨session, envs⟩ result hbody services
    obtain ⟨services', hturn⟩ := processTurn_seen before services session (envs 0)
    rw [processTurn_of_exit hbody] at hturn
    refine ⟨fun _ ↦ (envs 0).meeting session.services, services', ?_⟩
    apply processLoop.run_of_exit
    simp only [processLoop, hturn]
    rfl
  · intro ⟨session, envs⟩ next result hbody ih services
    obtain ⟨envs', services', hrun⟩ := ih next.1.services
    obtain ⟨_, hturn⟩ := processTurn_seen before services session (envs 0)
    rw [processTurn_of_next hbody] at hturn
    refine ⟨fun | 0 => (envs 0).meeting session.services | i + 1 => envs' i, services', ?_⟩
    rw [← hrun]
    apply processLoop.run_of_next
    simp only [processLoop, hturn]
    rfl

/-! ## Flushing -/

theorem registerWrite_seen : (session.seen before services).registerWrite =
    session.registerWrite.seen before services := by
  simp only [registerWrite, seen_server, setServer_seen, emit_seen, apply_ite (seen before services)]

theorem unregisterWrite_seen : (session.seen before services).unregisterWrite =
    session.unregisterWrite.seen before services := by
  simp only [unregisterWrite, seen_server, setServer_seen, emit_seen, apply_ite (seen before services)]

theorem finishFlush_seen : (session.seen before services).finishFlush =
    session.finishFlush.seen before services := by
  simp only [finishFlush_eq, seen_server, unregisterWrite_seen, closeConnection_seen,
    apply_ite (seen before services)]

theorem stopSending_seen (call : Bytes) (result : SysResult) :
    (session.seen before services).stopSending call result =
      (session.stopSending call result).seen before services := by
  simp only [stopSending, registerWrite_seen, fdText_seen, log_seen, closeConnection_seen,
    apply_ite (seen before services)]

theorem flushTurn_seen (results : ℕ → SysResult) :
    flushTurn (session.seen before services, results) = (flushTurn (session, results)).map
      (fun state ↦ (state.1.seen before services, state.2)) (seen before services) := by
  unfold flushTurn
  simp only [seen_server]
  split
  · rw [finishFlush_seen]
    rfl
  · split
    · rfl
    · split
      · simp [setQueue, Turn.map]
      · simp [stopSending_seen, Turn.map]
  · split
    · simp [setQueue, Turn.map]
    · split
      · simp [setQueue, Turn.map]
      · simp [stopSending_seen, Turn.map]

theorem tryFlush_seen (results : ℕ → SysResult) :
    (session.seen before services).tryFlush results =
      (session.tryFlush results).seen before services := by
  have hturn (state : Session × (ℕ → SysResult)) :
      flushLoop.body (state.1.seen before services, state.2) = (flushLoop.body state).map
        (fun state ↦ (state.1.seen before services, state.2)) (seen before services) :=
    flushTurn_seen before services state.1 state.2
  exact flushLoop.run_map flushLoop _ _ hturn (session, results)

/-! ## Events -/

theorem handleWrite_seen (sends : ℕ → SysResult) :
    (session.seen before services).handleWrite sends =
      (session.handleWrite sends).seen before services := by
  simp only [handleWrite, seen_server, tryFlush_seen, apply_ite (seen before services)]

theorem handleRead_seen (recvs : List RecvResult) (envs : ℕ → Env) (sends : ℕ → SysResult) :
    ∃ envs' services', (session.seen before services).handleRead recvs envs' sends =
      (session.handleRead recvs envs sends).seen before services' := by
  unfold handleRead
  by_cases hclosed : session.server.closed = true
  · exact ⟨envs, services, by simp [hclosed]⟩
  by_cases hshut : (session.recvIntoBuffer recvs).server.closed = true
  · exact ⟨envs, services, by simp [hclosed, recvIntoBuffer_seen, hshut]⟩
  obtain ⟨envs', services', hrun⟩ :=
    processRequests_seen before services (session.recvIntoBuffer recvs) envs
  refine ⟨envs', services', ?_⟩
  simp only [seen_server, hclosed, recvIntoBuffer_seen, hshut, hrun, tryFlush_seen]
  simp only [apply_ite (seen before services')]
  rfl

/-- Whatever an event does to a session, an event can be found that does it where other calls were made
before and other services are met. -/
theorem step_seen (event : Event) :
    ∃ event' services', (session.seen before services).step event' =
      (session.step event).seen before services' := by
  cases event with
  | read recvs envs sends =>
    obtain ⟨envs', services', hread⟩ := handleRead_seen before services session recvs envs sends
    exact ⟨.read recvs envs' sends, services', hread⟩
  | write sends => exact ⟨.write sends, services, handleWrite_seen before services session sends⟩
  | close =>
    refine ⟨.close, services, ?_⟩
    simp only [step, seen_server, closeConnection_seen, apply_ite (seen before services)]

/-- A run of events does the same to a connection with a history of its own. -/
theorem run_seen (events : List Event) :
    ∃ events' services', run step (session.seen before services) events' =
      (run step session events).seen before services' := by
  induction events generalizing services session with
  | nil => exact ⟨[], services, rfl⟩
  | cons event events ih =>
    obtain ⟨event', services', hstep⟩ := step_seen before services session event
    obtain ⟨events', services'', hrun⟩ := ih services' (session.step event)
    refine ⟨event' :: events', services'', ?_⟩
    rw [run_cons, hstep, hrun]
    rfl

end Session

end WebServer
