import WebServer.Connection.Output

/-!
# What events change

One statement for each handler about the fields it changes and the calls it makes: receiving appends
to the input buffer, processing consumes requests and queues answers, flushing shortens the output
queue. The data a receive loop gets and the way it ends are computed from the results of its calls by
`recvScan`, so that conditions on the input of an event can be stated without running the event.
-/

namespace WebServer

open Bytes HttpServer OutSegment

/-! ## Receiving -/

/-- How a receive loop ends. -/
inductive RecvEnd where
  | drained
  | endOfStream
  | overflow
  | failed
  deriving DecidableEq

/-- The bytes a receive loop appends to a buffer of `size` bytes, and how it ends. -/
def recvScan (size : ℕ) : List RecvResult → Bytes × RecvEnd
  | [] => ([], .drained)
  | .received data :: results =>
    if data = [] then ([], .endOfStream)
    else if maxInBuffer < size + data.length then (data, .overflow)
    else
      let rest := recvScan (size + data.length) results
      (data ++ rest.1, rest.2)
  | .failed errno :: _ => ([], if errno = eagain then .drained else .failed)

/-- A call that marks an answered verdict of the parser or queues output. -/
def Action.IsAnswer : Action → Prop
  | dispatch _ | reject _ | enqueue _ => True
  | _ => False

namespace Session

/-- `session'` follows from `session` by calls that all satisfy `kind`. -/
def Extends (kind : Action → Prop) (session session' : Session) : Prop :=
  ∃ calls, session'.trace = session.trace ++ calls ∧ ∀ action ∈ calls, kind action

namespace Extends

variable {kind : Action → Prop} {first second third : Session}

theorem refl (session : Session) : Extends kind session session :=
  ⟨[], (List.append_nil _).symm, by simp⟩

theorem of_trace_eq (h : second.trace = first.trace) : Extends kind first second :=
  ⟨[], by rw [h, List.append_nil], by simp⟩

theorem trans (h₁ : Extends kind first second) (h₂ : Extends kind second third) :
    Extends kind first third := by
  obtain ⟨calls₁, htrace₁, hkind₁⟩ := h₁
  obtain ⟨calls₂, htrace₂, hkind₂⟩ := h₂
  refine ⟨calls₁ ++ calls₂, by rw [htrace₂, htrace₁, List.append_assoc], fun action hmem ↦ ?_⟩
  rcases List.mem_append.mp hmem with hmem | hmem
  · exact hkind₁ action hmem
  · exact hkind₂ action hmem

theorem snoc (h : Extends kind first second) {action : Action}
    (htrace : third.trace = second.trace ++ [action]) (hkind : kind action) :
    Extends kind first third :=
  h.trans ⟨[action], htrace, by simpa using hkind⟩

theorem mono {kind' : Action → Prop} (h : Extends kind first second)
    (himp : ∀ action, kind action → kind' action) : Extends kind' first second := by
  obtain ⟨calls, htrace, hkind⟩ := h
  exact ⟨calls, htrace, fun action hmem ↦ himp action (hkind action hmem)⟩

end Extends

/-- A call that does not answer anything. -/
def NoAnswer (action : Action) : Prop := ¬ action.IsAnswer

theorem recvIntoBuffer_server (session : Session) (results : List RecvResult) :
    (session.recvIntoBuffer results).server =
      { session.server with
        inBuffer := session.server.inBuffer ++ (recvScan session.server.inBuffer.length results).1
        closed := session.server.closed ||
          decide ((recvScan session.server.inBuffer.length results).2 ≠ .drained) } := by
  induction results generalizing session with
  | nil => simp [recvIntoBuffer, recvScan]
  | cons result results ih =>
    cases result with
    | received data =>
      by_cases hdata : data = []
      · simp [recvIntoBuffer, recvScan, hdata]
      · by_cases hmax : maxInBuffer < session.server.inBuffer.length + data.length
        · simp [recvIntoBuffer, recvScan, hdata, hmax]
        · simp [recvIntoBuffer, recvScan, hdata, hmax, ih]
    | failed errno =>
      by_cases herrno : errno = eagain <;> simp [recvIntoBuffer, recvScan, herrno]

/-- The calls a receive loop makes. -/
def IsInputCall : Action → Prop
  | .recv _ | .log .. | .closeConnection => True
  | _ => False

theorem IsInputCall.noAnswer {action : Action} (h : IsInputCall action) : NoAnswer action := by
  cases action <;> first | exact id | exact absurd h id

/-- A receive loop only makes input calls, and closes the connection unless it drained the socket. -/
theorem recvIntoBuffer_extends (session : Session) (results : List RecvResult) :
    Extends IsInputCall session (session.recvIntoBuffer results) ∧
      (session.recvIntoBuffer results).services = session.services := by
  induction results generalizing session with
  | nil => exact ⟨(Extends.refl session).snoc rfl trivial, rfl⟩
  | cons result results ih =>
    have hcall : Extends IsInputCall session (session.emit (.recv result)) :=
      (Extends.refl session).snoc rfl trivial
    have hlog (message : Bytes) :
        Extends IsInputCall session ((session.emit (.recv result)).log .warning message) :=
      hcall.snoc rfl trivial
    cases result with
    | received data =>
      unfold recvIntoBuffer
      dsimp only
      split
      · exact ⟨hcall.snoc rfl trivial, rfl⟩
      · split
        · exact ⟨(hlog _).snoc rfl trivial, rfl⟩
        · obtain ⟨hextends, hservices⟩ := ih ((session.emit (.recv (.received data))).setServer
            { session.server with inBuffer := session.server.inBuffer ++ data })
          exact ⟨hcall.trans hextends, hservices⟩
    | failed errno =>
      unfold recvIntoBuffer
      dsimp only
      split
      · exact ⟨hcall, rfl⟩
      · exact ⟨(hlog _).snoc rfl trivial, rfl⟩

/-! ## Processing -/

section Request

variable (session : Session) (env : Env) (request : HttpRequest) (consumed : ℕ)

/-- The answer to the next request of a session. -/
def nextAnswer : Answer :=
  answer env request.keepAlive session.server.clientIp session.services request

@[simp]
theorem afterRequest_server : (session.afterRequest env request consumed).server =
    { session.server with
      inBuffer := session.server.inBuffer.drop consumed
      outQueue := session.server.outQueue ++ (session.nextAnswer env request).segments
      keepAlive := request.keepAlive
      closeAfterFlush :=
        if request.keepAlive then session.server.closeAfterFlush else true } := rfl

@[simp]
theorem afterRequest_services : (session.afterRequest env request consumed).services =
    (session.nextAnswer env request).services := rfl

@[simp]
theorem afterRequest_trace : (session.afterRequest env request consumed).trace =
    session.trace ++ .dispatch request :: ((session.nextAnswer env request).calls ++
      (session.nextAnswer env request).segments.map .enqueue) := by
  simp [afterRequest, answerWith, nextAnswer]

theorem length_nextAnswer_segments : (session.nextAnswer env request).segments.length = 1 ∨
    (session.nextAnswer env request).segments.length = 2 :=
  length_segments_answer ..

end Request

/-- Induction along `processRequests`: it stops for lack of input, at an error, at the last request
of the connection or at a full queue, and goes on after any other request. -/
theorem processRequests_induct {motive : Session → Session → Prop}
    (hneedMore : ∀ session, HttpRequest.parse session.server.inBuffer = .needMore →
      motive session session)
    (herror : ∀ session errorCode,
      HttpRequest.parse session.server.inBuffer = .error errorCode →
      motive session (session.reject errorCode))
    (hlast : ∀ session env request consumed,
      HttpRequest.parse session.server.inBuffer = .ok request consumed →
      request.keepAlive = false → motive session (session.afterRequest env request consumed))
    (hfull : ∀ session env request consumed,
      HttpRequest.parse session.server.inBuffer = .ok request consumed →
      request.keepAlive = true →
      maxOutSegments < (session.afterRequest env request consumed).server.outQueue.length →
      motive session (session.afterRequest env request consumed).outQueueExceeded)
    (hnext : ∀ session env request consumed session',
      HttpRequest.parse session.server.inBuffer = .ok request consumed →
      request.keepAlive = true →
      (session.afterRequest env request consumed).server.outQueue.length ≤ maxOutSegments →
      motive (session.afterRequest env request consumed) session' → motive session session')
    (envs : ℕ → Env) (session : Session) : motive session (session.processRequests envs) := by
  refine processLoop.run_induct (motive := fun state result ↦ motive state.1 result) ?_ ?_
    (session, envs)
  · rintro ⟨session, envs⟩ result hbody
    have hturned := processTurn_turned (envs 0) session
    simp only [processLoop] at hbody
    generalize processTurn (envs 0) session = turned at hbody hturned
    cases hturned with
    | starved hparse =>
      obtain rfl := Turn.exit.inj hbody
      exact hneedMore session hparse
    | refused hparse =>
      obtain rfl := Turn.exit.inj hbody
      exact herror session _ hparse
    | last hparse hkeep =>
      obtain rfl := Turn.exit.inj hbody
      exact hlast session (envs 0) _ _ hparse hkeep
    | full hparse hkeep hlen =>
      obtain rfl := Turn.exit.inj hbody
      exact hfull session (envs 0) _ _ hparse hkeep hlen
    | next => exact absurd hbody (by simp)
  · rintro ⟨session, envs⟩ state' result hbody hresult
    have hturned := processTurn_turned (envs 0) session
    simp only [processLoop] at hbody
    generalize processTurn (envs 0) session = turned at hbody hturned
    cases hturned with
    | starved | refused | last | full => exact absurd hbody (by simp)
    | next hparse hkeep hlen =>
      obtain rfl := Turn.next.inj hbody
      exact hnext session (envs 0) _ _ result hparse hkeep hlen hresult

theorem processRequests_of_needMore {session : Session} (envs : ℕ → Env)
    (h : HttpRequest.parse session.server.inBuffer = .needMore) :
    session.processRequests envs = session := by
  refine processLoop.run_of_exit ?_
  simp only [processLoop, processTurn_needMore h]

/-- Processing never closes the connection: the close decision is left to the flush. -/
theorem processRequests_closed (envs : ℕ → Env) (session : Session) :
    (session.processRequests envs).server.closed = session.server.closed := by
  refine processRequests_induct (motive := fun s s' ↦ s'.server.closed = s.server.closed)
    ?_ ?_ ?_ ?_ ?_ envs session
  · intros; rfl
  · intros; rw [reject_eq]
  · intros; rfl
  · intros; rfl
  · intro s env request consumed s' _ _ _ ih
    exact ih

/-- Processing only adds calls, and answers something unless the buffer holds too little. -/
theorem processRequests_answers (envs : ℕ → Env) (session : Session) :
    ∃ calls, (session.processRequests envs).trace = session.trace ++ calls ∧
      (HttpRequest.parse session.server.inBuffer ≠ .needMore →
        ∃ action ∈ calls, action.IsAnswer) := by
  refine processRequests_induct (motive := fun s s' ↦ ∃ calls, s'.trace = s.trace ++ calls ∧
    (HttpRequest.parse s.server.inBuffer ≠ .needMore → ∃ action ∈ calls, action.IsAnswer))
    ?_ ?_ ?_ ?_ ?_ envs session
  · intro s hparse
    exact ⟨[], (List.append_nil _).symm, fun hne ↦ absurd hparse hne⟩
  · intro s errorCode _
    exact ⟨_, by rw [reject_eq], fun _ ↦ ⟨.reject errorCode, by simp, trivial⟩⟩
  · intro s env request consumed _ _
    exact ⟨_, afterRequest_trace .., fun _ ↦ ⟨.dispatch request, by simp, trivial⟩⟩
  · intro s env request consumed _ _ _
    obtain ⟨message, htrace⟩ := outQueueExceeded_trace (s.afterRequest env request consumed)
    refine ⟨_, by rw [htrace, afterRequest_trace, List.append_assoc], fun _ ↦ ?_⟩
    exact ⟨.dispatch request, by simp, trivial⟩
  · rintro s env request consumed s' _ _ _ ⟨calls, htrace, -⟩
    refine ⟨_, by rw [htrace, afterRequest_trace, List.append_assoc], fun _ ↦ ?_⟩
    exact ⟨.dispatch request, by simp, trivial⟩

/-! ## Flushing -/

/-- The calls a flush makes. -/
def IsFlushCall : Action → Prop
  | .send .. | .sendfile .. | .closeFile _ | .updateEvents _ | .closeConnection | .log .. => True
  | _ => False

theorem IsFlushCall.noAnswer {action : Action} (h : IsFlushCall action) : NoAnswer action := by
  cases action <;> first | exact id | exact absurd h id

theorem IsIdleCall.isFlushCall {result : SysResult} {action : Action}
    (h : IsIdleCall result action) : IsFlushCall action := by
  rcases h with rfl | ⟨fileFd, rfl⟩ <;> trivial

/-- What a flush may change. -/
structure Flushed (session session' : Session) : Prop where
  services : session'.services = session.services
  server : ∃ queue registered closed, session'.server =
    { session.server with outQueue := queue, writeRegistered := registered, closed := closed }
  length_le : session'.server.outQueue.length ≤ session.server.outQueue.length
  calls : Extends IsFlushCall session session'
  open_queue : session.server.closed = false → session'.server.closed = false →
    session'.server.outQueue = [] → session.server.closeAfterFlush = false

theorem FlushStep.effect {session next : Session} (h : FlushStep session next) :
    next.services = session.services ∧
    (∃ queue, next.server = { session.server with outQueue := queue }) ∧
    next.server.outQueue.length ≤ session.server.outQueue.length ∧
    Extends IsFlushCall session next := by
  cases h with
  | popBytes hqueue =>
    exact ⟨rfl, ⟨_, rfl⟩, by simp [setQueue, hqueue], Extends.refl _⟩
  | send result n hqueue hpos hle =>
    exact ⟨rfl, ⟨_, rfl⟩, by simp [setQueue, hqueue], (Extends.refl _).snoc rfl trivial⟩
  | popFile hqueue =>
    exact ⟨rfl, ⟨_, rfl⟩, by simp [setQueue, hqueue], (Extends.refl _).snoc rfl trivial⟩
  | sendfile result n hqueue hpos hle =>
    exact ⟨rfl, ⟨_, rfl⟩, by simp [setQueue, hqueue], (Extends.refl _).snoc rfl trivial⟩

theorem finishFlush_extends (session : Session) :
    Extends IsFlushCall session session.finishFlush ∧
      session.finishFlush.services = session.services := by
  have hunregister : Extends IsFlushCall session session.unregisterWrite ∧
      session.unregisterWrite.services = session.services := by
    unfold unregisterWrite
    split
    · exact ⟨(Extends.refl session).snoc rfl trivial, rfl⟩
    · exact ⟨Extends.refl session, rfl⟩
  rw [finishFlush_eq]
  split
  · exact ⟨hunregister.1.snoc rfl trivial, hunregister.2⟩
  · exact hunregister

theorem FlushEnd.flushed {session session' : Session} (h : FlushEnd session session') :
    Flushed session session' := by
  cases h with
  | drained hqueue =>
    obtain ⟨hextends, hservices⟩ := finishFlush_extends session
    have hserver := finishFlush_server session
    refine ⟨hservices, ⟨_, _, _, hserver⟩, by rw [hserver], hextends, fun _ hopen _ ↦ ?_⟩
    rw [hserver] at hopen
    exact (Bool.or_eq_false_iff.mp hopen).2
  | blocked result action hqueue hcall hblock =>
    have hemit : Extends IsFlushCall session (session.emit action) :=
      (Extends.refl _).snoc rfl hcall.isFlushCall
    unfold registerWrite
    split
    · exact ⟨rfl, ⟨_, _, _, rfl⟩, le_rfl, hemit, fun _ _ hnil ↦ absurd hnil hqueue⟩
    · exact ⟨rfl, ⟨_, _, _, rfl⟩, le_rfl, hemit.snoc rfl trivial, fun _ _ hnil ↦ absurd hnil hqueue⟩
  | failed result action message hqueue hcall hret hblock =>
    have hemit : Extends IsFlushCall session (session.emit action) :=
      (Extends.refl _).snoc rfl hcall.isFlushCall
    have hlog : Extends IsFlushCall session ((session.emit action).log .warning message) :=
      hemit.snoc rfl trivial
    exact ⟨rfl, ⟨_, _, _, rfl⟩, le_rfl, hlog.snoc rfl trivial, by simp⟩

theorem tryFlush_flushed (results : ℕ → SysResult) (session : Session) :
    Flushed session (session.tryFlush results) := by
  refine tryFlush_induct (motive := Flushed) (fun s s' hend ↦ hend.flushed) ?_ results session
  intro s next s' hstep ih
  obtain ⟨hservices, ⟨queue, hserver⟩, hlen, hcalls⟩ := hstep.effect
  obtain ⟨queue', registered, closed, hserver'⟩ := ih.server
  have hopen := ih.open_queue
  rw [hserver] at hserver' hopen
  exact ⟨ih.services.trans hservices, ⟨queue', registered, closed, hserver'⟩,
    ih.length_le.trans hlen, hcalls.trans ih.calls, hopen⟩

/-! ## Read events -/

/-- Events only add calls to the trace. -/
theorem trace_prefix_step (session : Session) (event : Event) :
    session.trace <+: (session.step event).trace := by
  have hflush (s : Session) (sends : ℕ → SysResult) : s.trace <+: (s.tryFlush sends).trace := by
    obtain ⟨calls, htrace, -⟩ := (tryFlush_flushed sends s).calls
    exact ⟨calls, htrace.symm⟩
  cases event with
  | read recvs envs sends =>
    obtain ⟨received, hreceived, -⟩ := (recvIntoBuffer_extends session recvs).1
    obtain ⟨answers, hanswers, -⟩ := processRequests_answers envs (session.recvIntoBuffer recvs)
    unfold step handleRead
    dsimp only
    split
    · exact List.prefix_rfl
    · split
      · exact ⟨received, hreceived.symm⟩
      · have hprocess : session.trace <+:
            ((session.recvIntoBuffer recvs).processRequests envs).trace :=
          ⟨received ++ answers, by rw [hanswers, hreceived, List.append_assoc]⟩
        split
        · exact hprocess
        · exact hprocess.trans (hflush _ sends)
  | write sends =>
    unfold step handleWrite
    dsimp only
    split
    · exact List.prefix_rfl
    · exact hflush session sends
  | close =>
    unfold step
    dsimp only
    split
    · exact List.prefix_rfl
    · exact List.prefix_append ..

section Read

variable {session : Session} {recvs : List RecvResult} (envs : ℕ → Env) (sends : ℕ → SysResult)

theorem handleRead_of_closed (h : session.server.closed = true) :
    session.handleRead recvs envs sends = session := by
  simp [handleRead, h]

/-- A read event ends with its receive loop when that loop closes the connection. -/
theorem handleRead_of_not_drained (hopen : session.server.closed = false)
    (h : (recvScan session.server.inBuffer.length recvs).2 ≠ .drained) :
    session.handleRead recvs envs sends = session.recvIntoBuffer recvs := by
  have hclosed : (session.recvIntoBuffer recvs).server.closed = true := by
    simp [recvIntoBuffer_server, h]
  simp [handleRead, hopen, hclosed]

/-- A read event that drained the socket processes the buffer and flushes. -/
theorem handleRead_of_drained (hopen : session.server.closed = false)
    (h : (recvScan session.server.inBuffer.length recvs).2 = .drained) :
    session.handleRead recvs envs sends =
      ((session.recvIntoBuffer recvs).processRequests envs).tryFlush sends := by
  have hclosed : (session.recvIntoBuffer recvs).server.closed = false := by
    simp [recvIntoBuffer_server, h, hopen]
  simp [handleRead, hopen, processRequests_closed, hclosed]

end Read

end Session

end WebServer
