import WebServer.Http.RequestStream
import WebServer.Connection.Effects

/-!
# What a connection reads

The trace of a connection shows the bytes it received, the requests it handed to `dispatch` and the
parse errors it answered. One call of `processRequests` reads requests from the front of the buffer
in the sense of `requestFramer`, and `ProcessEnd` lists the four ways in which it stops.
-/

namespace WebServer

open Bytes HttpServer Framer

namespace Action

def dispatchedRequest : Action → Option HttpRequest
  | dispatch request => some request
  | _ => none

def rejectedCode : Action → Option ℕ
  | reject errorCode => some errorCode
  | _ => none

def receivedBytes : Action → Bytes
  | recv (.received data) => data
  | _ => []

/-- The warnings by which a connection says that it trips `maxInBuffer` or `maxOutSegments`. -/
def isLimitWarning : Action → Bool
  | log .warning message => (lit "输入缓冲超限").isPrefixOf message ||
      (lit "输出队列超限").isPrefixOf message
  | _ => false

end Action

/-- The requests handed to `dispatch`, in order. -/
def dispatched (trace : List Action) : List HttpRequest := trace.filterMap Action.dispatchedRequest

/-- The codes of the parse errors that were answered. -/
def rejected (trace : List Action) : List ℕ := trace.filterMap Action.rejectedCode

/-- The bytes received, in order. -/
def received (trace : List Action) : Bytes := trace.flatMap Action.receivedBytes

@[simp]
theorem dispatched_append (first second : List Action) :
    dispatched (first ++ second) = dispatched first ++ dispatched second := List.filterMap_append

@[simp]
theorem rejected_append (first second : List Action) :
    rejected (first ++ second) = rejected first ++ rejected second := List.filterMap_append

@[simp]
theorem received_append (first second : List Action) :
    received (first ++ second) = received first ++ received second := List.flatMap_append

/-- Calls that say nothing about the input of a connection. -/
def Action.IsInputSilent (action : Action) : Prop :=
  action.dispatchedRequest = none ∧ action.rejectedCode = none ∧ action.receivedBytes = []

theorem input_of_silent {calls : List Action} (h : ∀ action ∈ calls, action.IsInputSilent) :
    dispatched calls = [] ∧ rejected calls = [] ∧ received calls = [] := by
  refine ⟨?_, ?_, ?_⟩
  · exact List.filterMap_eq_nil_iff.mpr fun action hmem ↦ (h action hmem).1
  · exact List.filterMap_eq_nil_iff.mpr fun action hmem ↦ (h action hmem).2.1
  · exact List.flatMap_eq_nil_iff.mpr fun action hmem ↦ (h action hmem).2.2

namespace Session

variable {session session' : Session}

theorem IsFlushCall.inputSilent {action : Action} (h : IsFlushCall action) :
    action.IsInputSilent := by
  cases action <;> first | exact ⟨rfl, rfl, rfl⟩ | exact absurd h id

theorem IsFileCall.inputSilent {action : Action} (h : IsFileCall action) :
    action.IsInputSilent := by
  cases action <;> first | exact ⟨rfl, rfl, rfl⟩ | exact absurd h id

/-- Flushing says nothing about the input. -/
theorem tryFlush_input (results : ℕ → SysResult) (session : Session) :
    dispatched (session.tryFlush results).trace = dispatched session.trace ∧
      rejected (session.tryFlush results).trace = rejected session.trace ∧
      received (session.tryFlush results).trace = received session.trace := by
  obtain ⟨calls, htrace, hcalls⟩ := (tryFlush_flushed results session).calls
  obtain ⟨hdispatched, hrejected, hreceived⟩ :=
    input_of_silent fun action hmem ↦ (hcalls action hmem).inputSilent
  simp [htrace, hdispatched, hrejected, hreceived]

/-- A receive loop dispatches and refuses nothing. -/
theorem recvIntoBuffer_input (session : Session) (recvs : List RecvResult) :
    dispatched (session.recvIntoBuffer recvs).trace = dispatched session.trace ∧
      rejected (session.recvIntoBuffer recvs).trace = rejected session.trace := by
  obtain ⟨calls, htrace, hcalls⟩ := (recvIntoBuffer_extends session recvs).1
  have hdispatched : dispatched calls = [] := by
    refine List.filterMap_eq_nil_iff.mpr fun action hmem ↦ ?_
    have hkind := hcalls action hmem
    cases action <;> first | rfl | exact absurd hkind id
  have hrejected : rejected calls = [] := by
    refine List.filterMap_eq_nil_iff.mpr fun action hmem ↦ ?_
    have hkind := hcalls action hmem
    cases action <;> first | rfl | exact absurd hkind id
  simp [htrace, hdispatched, hrejected]

/-- The bytes a receive loop appends to the buffer are the bytes it received. -/
theorem received_recvIntoBuffer (session : Session) (recvs : List RecvResult) :
    received (session.recvIntoBuffer recvs).trace =
      received session.trace ++ (recvScan session.server.inBuffer.length recvs).1 := by
  induction recvs generalizing session with
  | nil => simp [recvIntoBuffer, recvScan, received, Action.receivedBytes]
  | cons result recvs ih =>
    cases result with
    | received data =>
      by_cases hdata : data = []
      · simp [recvIntoBuffer, recvScan, hdata, received, Action.receivedBytes]
      · by_cases hmax : maxInBuffer < session.server.inBuffer.length + data.length
        · simp [recvIntoBuffer, recvScan, hdata, hmax, received, Action.receivedBytes]
        · simp only [recvIntoBuffer, recvScan, hdata, if_false, emit_server, setServer_server,
            List.length_append, hmax, ih]
          simp [received, Action.receivedBytes]
    | failed errno =>
      by_cases herrno : errno = eagain <;>
        simp [recvIntoBuffer, recvScan, herrno, received, Action.receivedBytes]

/-- A receive loop that overflows the buffer leaves the warning. -/
theorem recvIntoBuffer_overflow (session : Session) (recvs : List RecvResult)
    (h : (recvScan session.server.inBuffer.length recvs).2 = .overflow) :
    ∃ action ∈ (session.recvIntoBuffer recvs).trace, action.isLimitWarning = true := by
  induction recvs generalizing session with
  | nil => exact absurd h (by simp [recvScan])
  | cons result recvs ih =>
    cases result with
    | received data =>
      by_cases hdata : data = []
      · simp [recvScan, hdata] at h
      · by_cases hmax : maxInBuffer < session.server.inBuffer.length + data.length
        · refine ⟨.log .warning (lit "输入缓冲超限, 关闭连接 fd: " ++ session.fdText), ?_, rfl⟩
          simp [recvIntoBuffer, hdata, hmax, fdText]
        · simp only [recvScan, hdata, if_false, hmax] at h
          obtain ⟨action, hmem, hlimit⟩ :=
            ih ((session.emit (.recv (.received data))).setServer
              { session.server with inBuffer := session.server.inBuffer ++ data })
              (by simpa using h)
          refine ⟨action, ?_, hlimit⟩
          simpa [recvIntoBuffer, hdata, hmax] using hmem
    | failed errno =>
      by_cases herrno : errno = eagain <;> simp [recvScan, herrno] at h

/-! ## Processing -/

theorem afterRequest_input (session : Session) (env : Env) (request : HttpRequest) (consumed : ℕ) :
    dispatched (session.afterRequest env request consumed).trace =
        dispatched session.trace ++ [request] ∧
      rejected (session.afterRequest env request consumed).trace = rejected session.trace ∧
      received (session.afterRequest env request consumed).trace = received session.trace := by
  have hsilent : ∀ action ∈ (session.nextAnswer env request).calls ++
      (session.nextAnswer env request).segments.map .enqueue, action.IsInputSilent := by
    intro action hmem
    rcases List.mem_append.mp hmem with hcall | hsegment
    · exact (isFileCall_of_mem_answer hcall).inputSilent
    · obtain ⟨segment, -, rfl⟩ := List.mem_map.mp hsegment
      exact ⟨rfl, rfl, rfl⟩
  obtain ⟨hdispatched, hrejected, hreceived⟩ := input_of_silent hsilent
  have hsplit : Action.dispatch request :: ((session.nextAnswer env request).calls ++
      (session.nextAnswer env request).segments.map .enqueue) =
      [Action.dispatch request] ++ ((session.nextAnswer env request).calls ++
        (session.nextAnswer env request).segments.map .enqueue) := rfl
  rw [afterRequest_trace, hsplit]
  simp only [dispatched_append, rejected_append, received_append] at hdispatched hrejected hreceived ⊢
  rw [hdispatched, hrejected, hreceived]
  simp [dispatched, rejected, received, Action.dispatchedRequest, Action.rejectedCode,
    Action.receivedBytes]

/-- How a call of `processRequests` stops, after it has read `requests` and left `rest`. -/
inductive ProcessEnd (session : Session) (requests : List HttpRequest) (rest : Bytes)
    (session' : Session) : Prop where
  | starved (hparse : HttpRequest.parse rest = .needMore)
      (hbuffer : session'.server.inBuffer = rest)
      (hdecided : session'.server.closeAfterFlush = session.server.closeAfterFlush)
      (hdispatched : dispatched session'.trace = dispatched session.trace ++ requests)
      (hrejected : rejected session'.trace = rejected session.trace)
  | refused (code : ℕ) (hparse : HttpRequest.parse rest = .error code)
      (hdecided : session'.server.closeAfterFlush = true)
      (hdispatched : dispatched session'.trace = dispatched session.trace ++ requests)
      (hrejected : rejected session'.trace = rejected session.trace ++ [code])
  | last (request : HttpRequest) (consumed : ℕ)
      (hparse : HttpRequest.parse rest = .ok request consumed) (hkeep : request.keepAlive = false)
      (hdecided : session'.server.closeAfterFlush = true)
      (hdispatched : dispatched session'.trace =
        dispatched session.trace ++ (requests ++ [request]))
      (hrejected : rejected session'.trace = rejected session.trace)
  | full (hdecided : session'.server.closeAfterFlush = true)
      (hlimit : ∃ action ∈ session'.trace, action.isLimitWarning = true)

/-- One call of `processRequests` reads requests from the front of the buffer. -/
theorem processRequests_reads (envs : ℕ → Env) (session : Session) :
    ∃ requests rest, requestFramer.Reads session.server.inBuffer requests rest ∧
      ProcessEnd session requests rest (session.processRequests envs) := by
  refine processRequests_induct (motive := fun s s' ↦ ∃ requests rest,
    requestFramer.Reads s.server.inBuffer requests rest ∧ ProcessEnd s requests rest s')
    ?_ ?_ ?_ ?_ ?_ envs session
  · intro s hparse
    exact ⟨[], _, .refl _, .starved hparse rfl rfl (List.append_nil _).symm rfl⟩
  · intro s errorCode hparse
    refine ⟨[], _, .refl _, .refused errorCode hparse (by rw [reject_eq]) ?_ ?_⟩
    · simp [reject_eq, dispatched, Action.dispatchedRequest]
    · simp [reject_eq, rejected, Action.rejectedCode]
  · intro s env request consumed hparse hkeep
    obtain ⟨hdispatched, hrejected, -⟩ := afterRequest_input s env request consumed
    exact ⟨[], _, .refl _, .last request consumed hparse hkeep (by simp [hkeep]) hdispatched
      hrejected⟩
  · intro s env request consumed _ _ _
    refine ⟨[], _, .refl _, .full rfl ?_⟩
    refine ⟨.log .warning (lit "输出队列超限, 关闭连接 fd: " ++
      (s.afterRequest env request consumed).fdText), ?_, rfl⟩
    simp [outQueueExceeded]
  · rintro s env request consumed s' hparse hkeep _ ⟨requests, rest, hreads, hend⟩
    obtain ⟨hdispatched, hrejected, -⟩ := afterRequest_input s env request consumed
    rw [afterRequest_server] at hreads
    have hfirst : requestFramer.parse s.server.inBuffer = .ok request consumed := hparse
    refine ⟨request :: requests, rest, .cons hfirst (by simp [requestFramer, hkeep]) hreads, ?_⟩
    rw [show request :: requests = [request] ++ requests from rfl]
    cases hend with
    | starved hparse hbuffer hdecided hd hr =>
      refine .starved hparse hbuffer ?_ ?_ (hr.trans hrejected)
      · simpa [hkeep] using hdecided
      · rw [hd, hdispatched, List.append_assoc]
    | refused code hparse hdecided hd hr =>
      refine .refused code hparse hdecided ?_ (by rw [hr, hrejected])
      rw [hd, hdispatched, List.append_assoc]
    | last request consumed hparse hkeep hdecided hd hr =>
      refine .last request consumed hparse hkeep hdecided ?_ (hr.trans hrejected)
      rw [hd, hdispatched, List.append_assoc, List.append_assoc]
    | full hdecided hlimit => exact .full hdecided hlimit

/-- Processing receives nothing. -/
theorem received_processRequests (envs : ℕ → Env) (session : Session) :
    received (session.processRequests envs).trace = received session.trace := by
  refine processRequests_induct (motive := fun s s' ↦ received s'.trace = received s.trace)
    ?_ ?_ ?_ ?_ ?_ envs session
  · intros
    rfl
  · intro s errorCode _
    simp [reject_eq, received, Action.receivedBytes]
  · intro s env request consumed _ _
    exact (afterRequest_input s env request consumed).2.2
  · intro s env request consumed _ _ _
    obtain ⟨message, htrace⟩ := outQueueExceeded_trace (s.afterRequest env request consumed)
    rw [htrace, received_append, (afterRequest_input s env request consumed).2.2]
    simp [received, Action.receivedBytes]
  · intro s env request consumed s' _ _ _ ih
    exact ih.trans (afterRequest_input s env request consumed).2.2

end Session

end WebServer
