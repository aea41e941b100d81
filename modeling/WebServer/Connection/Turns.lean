import WebServer.Connection.Effects

/-!
# The turns of an event

A turn of `processRequests` makes calls of its own, and a read event makes the calls of its turns in
order, behind those of the receive loop and before those of the flush. What a run queues or logs is
read off its turns.
-/

namespace WebServer

open Bytes HttpServer

namespace Session

/-- The calls that a turn of `processRequests` makes. -/
def turnCalls (env : Env) (session : Session) : List Action :=
  match processTurn env session with
  | .next session' | .exit session' => session'.trace.drop session.trace.length

/-- The turns of `processRequests` in an event, with the session and the environments each begins with. -/
def turnsOf (session : Session) : Event → List (Session × (ℕ → Env))
  | .read recvs envs _ =>
    if session.server.closed then []
    else
      let session := session.recvIntoBuffer recvs
      if session.server.closed then [] else processLoop.visited (session, envs)
  | .write _ | .close => []

/-- The segments that a turn of `processRequests` adds to the output queue. -/
def turnSegments (env : Env) (session : Session) : List OutSegment :=
  match processTurn env session with
  | .next session' | .exit session' =>
    session'.server.outQueue.drop session.server.outQueue.length

/-- `processRequests` returns after this turn. -/
def stops (env : Env) (session : Session) : Bool :=
  match processTurn env session with
  | .next _ => false
  | .exit _ => true

/-! ## The calls of one turn -/

section Turn

variable (env : Env) {session : Session}

theorem turnCalls_of_needMore (h : HttpRequest.parse session.server.inBuffer = .needMore) :
    turnCalls env session = [] := by
  rw [turnCalls, processTurn_needMore h]
  exact List.drop_length

theorem turnCalls_of_error {errorCode : ℕ}
    (h : HttpRequest.parse session.server.inBuffer = .error errorCode) :
    turnCalls env session =
      [.reject errorCode, .enqueue (.bytes (parseErrorResponse errorCode).toString)] := by
  rw [turnCalls, processTurn_error h]
  simp [reject_eq]

/-- A complete request is dispatched and answered, and a warning follows if the queue is too long. -/
theorem turnCalls_of_ok {request : HttpRequest} {consumed : ℕ}
    (h : HttpRequest.parse session.server.inBuffer = .ok request consumed) :
    ∃ warnings, turnCalls env session = .dispatch request :: ((session.nextAnswer env request).calls ++
        (session.nextAnswer env request).segments.map .enqueue ++ warnings) ∧
      ∀ action ∈ warnings,
        action = .log .warning (lit "输出队列超限, 关闭连接 fd: " ++ session.fdText) := by
  have htrace := session.afterRequest_trace env request consumed
  rw [turnCalls, processTurn_ok h]
  by_cases hkeep : request.keepAlive = false
  · rw [if_pos hkeep]
    refine ⟨[], ?_, by simp⟩
    dsimp only
    rw [htrace, List.drop_left, List.append_nil]
  · rw [if_neg hkeep]
    by_cases hfull : maxOutSegments <
        (session.afterRequest env request consumed).server.outQueue.length
    · rw [if_pos hfull]
      have hexceeded : (session.afterRequest env request consumed).outQueueExceeded.trace =
          (session.afterRequest env request consumed).trace ++
            [.log .warning (lit "输出队列超限, 关闭连接 fd: " ++ session.fdText)] := rfl
      refine ⟨[.log .warning (lit "输出队列超限, 关闭连接 fd: " ++ session.fdText)], ?_, by simp⟩
      dsimp only
      rw [hexceeded, htrace, List.append_assoc, List.drop_left, List.cons_append]
    · rw [if_neg hfull]
      refine ⟨[], ?_, by simp⟩
      dsimp only
      rw [htrace, List.drop_left, List.append_nil]

/-- A turn only adds its calls to the trace. -/
theorem trace_processTurn {session' : Session}
    (h : processTurn env session = .next session' ∨ processTurn env session = .exit session') :
    session'.trace = session.trace ++ turnCalls env session := by
  obtain ⟨calls, htrace⟩ : ∃ calls, session'.trace = session.trace ++ calls := by
    have hturned := processTurn_turned env session
    generalize processTurn env session = turned at h hturned
    cases hturned with
    | starved =>
      obtain rfl : session = session' := by simpa using h
      exact ⟨[], (List.append_nil _).symm⟩
    | @refused errorCode =>
      obtain rfl : session.reject errorCode = session' := by simpa using h
      exact ⟨_, by rw [reject_eq]⟩
    | @last request consumed | @next request consumed =>
      obtain rfl : session.afterRequest env request consumed = session' := by simpa using h
      exact ⟨_, afterRequest_trace ..⟩
    | @full request consumed =>
      obtain rfl : (session.afterRequest env request consumed).outQueueExceeded = session' := by
        simpa using h
      obtain ⟨message, hexceeded⟩ :=
        outQueueExceeded_trace (session.afterRequest env request consumed)
      exact ⟨_, by rw [hexceeded, afterRequest_trace, List.append_assoc]⟩
  have hcalls : turnCalls env session = session'.trace.drop session.trace.length := by
    obtain hnext | hexit := h
    · rw [turnCalls, hnext]
    · rw [turnCalls, hexit]
  rw [hcalls, htrace, List.drop_left]

theorem turnSegments_of_needMore (h : HttpRequest.parse session.server.inBuffer = .needMore) :
    turnSegments env session = [] := by
  rw [turnSegments, processTurn_needMore h]
  exact List.drop_length

theorem turn_of_error {errorCode : ℕ}
    (h : HttpRequest.parse session.server.inBuffer = .error errorCode) :
    turnSegments env session = [.bytes (parseErrorResponse errorCode).toString] ∧
      stops env session = true := by
  rw [turnSegments, stops, processTurn_error h]
  exact ⟨by simp [reject_eq], rfl⟩

/-- A complete request is the last one if it does not keep the connection or fills the queue. -/
theorem turn_of_ok {request : HttpRequest} {consumed : ℕ}
    (h : HttpRequest.parse session.server.inBuffer = .ok request consumed) :
    turnSegments env session = (session.nextAnswer env request).segments ∧
      (stops env session = true ↔ request.keepAlive = false ∨
        maxOutSegments < session.server.outQueue.length +
          (session.nextAnswer env request).segments.length) := by
  have hdrop : ((session.afterRequest env request consumed).server.outQueue).drop
      session.server.outQueue.length = (session.nextAnswer env request).segments := by
    simp
  have hlength : (session.afterRequest env request consumed).server.outQueue.length =
      session.server.outQueue.length + (session.nextAnswer env request).segments.length := by
    simp
  rw [turnSegments, stops, processTurn_ok h, hlength]
  by_cases hkeep : request.keepAlive = false
  · rw [if_pos hkeep]
    exact ⟨hdrop, iff_of_true rfl (.inl hkeep)⟩
  · rw [if_neg hkeep]
    by_cases hfull : maxOutSegments <
        session.server.outQueue.length + (session.nextAnswer env request).segments.length
    · rw [if_pos hfull]
      exact ⟨hdrop, iff_of_true rfl (.inr hfull)⟩
    · rw [if_neg hfull]
      exact ⟨hdrop, iff_of_false Bool.false_ne_true (not_or.mpr ⟨hkeep, hfull⟩)⟩

theorem isEmpty_segments_nextAnswer (session : Session) (env : Env) (request : HttpRequest) :
    (session.nextAnswer env request).segments.isEmpty = false := by
  have hlength := length_nextAnswer_segments session env request
  cases hsegments : (session.nextAnswer env request).segments with
  | nil =>
    rw [hsegments] at hlength
    exact absurd hlength (by decide)
  | cons segment segments => rfl

end Turn

/-! ## The calls of an event -/

/-- A call of `processRequests` makes the calls of its turns, in order. -/
theorem trace_processRequests (envs : ℕ → Env) (session : Session) :
    (session.processRequests envs).trace = session.trace ++
      (processLoop.visited (session, envs)).flatMap fun turn ↦ turnCalls (turn.2 0) turn.1 := by
  refine processLoop.run_induct (motive := fun state result ↦ result.trace = state.1.trace ++
    (processLoop.visited state).flatMap fun turn ↦ turnCalls (turn.2 0) turn.1) ?_ ?_ (session, envs)
  · rintro ⟨session, envs⟩ result hbody
    rw [processLoop.visited_of_exit hbody, List.flatMap_singleton]
    exact trace_processTurn (envs 0) (.inr (processTurn_of_exit hbody))
  · rintro ⟨session, envs⟩ next result hbody hresult
    rw [processLoop.visited_of_next hbody, List.flatMap_cons]
    calc
      _ = next.1.trace ++ (processLoop.visited next).flatMap fun turn ↦ turnCalls (turn.2 0) turn.1 :=
        hresult
      _ = session.trace ++ turnCalls (envs 0) session ++
          (processLoop.visited next).flatMap fun turn ↦ turnCalls (turn.2 0) turn.1 := by
        rw [trace_processTurn (envs 0) (.inl (processTurn_of_next hbody))]
      _ = _ := List.append_assoc ..

/-- An event makes the calls of its turns; what it does besides is of any kind that receiving, flushing
and closing are of. -/
theorem trace_step {kind : Action → Prop}
    (hrecv : ∀ session recvs, Extends kind session (recvIntoBuffer recvs session))
    (hflush : ∀ session results, Extends kind session (tryFlush results session))
    (hclose : kind .closeConnection) (session : Session) (event : Event) :
    ∃ before after, (session.step event).trace = session.trace ++ (before ++
        (session.turnsOf event).flatMap (fun turn ↦ turnCalls (turn.2 0) turn.1) ++ after) ∧
      (∀ action ∈ before, kind action) ∧ ∀ action ∈ after, kind action := by
  have hnothing : session.trace = session.trace ++ ([] ++ ([] : List Action) ++ []) := by simp
  cases event with
  | read recvs envs sends =>
    unfold step handleRead turnsOf
    dsimp only
    by_cases hclosed : session.server.closed = true
    · rw [if_pos hclosed, if_pos hclosed]
      exact ⟨[], [], hnothing, by simp, by simp⟩
    · rw [if_neg hclosed, if_neg hclosed]
      obtain ⟨before, hbefore, hkind⟩ := hrecv session recvs
      by_cases hreceived : (session.recvIntoBuffer recvs).server.closed = true
      · rw [if_pos hreceived, if_pos hreceived]
        exact ⟨before, [], by simpa using hbefore, hkind, by simp⟩
      · rw [if_neg hreceived, if_neg hreceived]
        have hprocess := trace_processRequests envs (session.recvIntoBuffer recvs)
        rw [hbefore, List.append_assoc] at hprocess
        split
        · exact ⟨before, [], by rw [List.append_nil, hprocess], hkind, by simp⟩
        · obtain ⟨after, hafter, hkind'⟩ :=
            hflush ((session.recvIntoBuffer recvs).processRequests envs) sends
          exact ⟨before, after, by rw [hafter, hprocess, List.append_assoc], hkind, hkind'⟩
  | write sends =>
    unfold step handleWrite
    dsimp only
    split
    · exact ⟨[], [], hnothing, by simp, by simp⟩
    · obtain ⟨after, hafter, hkind⟩ := hflush session sends
      exact ⟨[], after, hafter, by simp, hkind⟩
  | close =>
    unfold step
    dsimp only
    split
    · exact ⟨[], [], hnothing, by simp, by simp⟩
    · exact ⟨[], [.closeConnection], rfl, by simp, by simpa using hclose⟩

/-! ## The segments of an event -/

/-- The segments that are queued, in order. -/
def queuedSegments (trace : List Action) : List OutSegment := trace.filterMap Action.queuedSegment

@[simp]
theorem queuedSegments_append (first second : List Action) :
    queuedSegments (first ++ second) = queuedSegments first ++ queuedSegments second :=
  List.filterMap_append

theorem queuedSegments_of_none {calls : List Action}
    (h : ∀ action ∈ calls, action.queuedSegment = none) : queuedSegments calls = [] :=
  List.filterMap_eq_nil_iff.mpr h

theorem queuedSegments_map_enqueue (segments : List OutSegment) :
    queuedSegments (segments.map .enqueue) = segments := by
  rw [queuedSegments, List.filterMap_map]
  exact List.filterMap_some

/-- The segments of a turn are those that its calls queue. -/
theorem queuedSegments_turnCalls (env : Env) (session : Session) :
    queuedSegments (turnCalls env session) = turnSegments env session := by
  cases hparse : HttpRequest.parse session.server.inBuffer with
  | needMore =>
    rw [turnCalls_of_needMore env hparse, turnSegments_of_needMore env hparse]
    rfl
  | error errorCode =>
    rw [turnCalls_of_error env hparse, (turn_of_error env hparse).1]
    rfl
  | ok request consumed =>
    obtain ⟨warnings, hcalls, hwarnings⟩ := turnCalls_of_ok env hparse
    have hanswer : queuedSegments (session.nextAnswer env request).calls = [] := by
      apply queuedSegments_of_none
      intro action hmem
      have hfile := isFileCall_of_mem_answer hmem
      cases action <;> first | rfl | exact absurd hfile id
    have hwarned : queuedSegments warnings = [] :=
      queuedSegments_of_none fun action hmem ↦ by rw [hwarnings action hmem]; rfl
    have hcons (calls : List Action) :
        queuedSegments (.dispatch request :: calls) = queuedSegments calls := rfl
    rw [hcalls, hcons, queuedSegments_append, queuedSegments_append, hanswer, hwarned,
      queuedSegments_map_enqueue, List.nil_append, List.append_nil, (turn_of_ok env hparse).1]

/-- An event queues the segments of its turns, in order. -/
theorem queuedSegments_step (session : Session) (event : Event) :
    queuedSegments (session.step event).trace = queuedSegments session.trace ++
      (session.turnsOf event).flatMap fun turn ↦ turnSegments (turn.2 0) turn.1 := by
  have hinput {action : Action} (h : IsInputCall action) : action.queuedSegment = none := by
    cases action <;> first | rfl | exact absurd h id
  have houtput {action : Action} (h : IsFlushCall action) : action.queuedSegment = none := by
    cases action <;> first | rfl | exact absurd h id
  have hrecv (session : Session) (recvs : List RecvResult) :
      Extends (fun action ↦ action.queuedSegment = none) session (recvIntoBuffer recvs session) :=
    (recvIntoBuffer_extends session recvs).1.mono fun _ ↦ hinput
  have hflush (session : Session) (results : ℕ → SysResult) :
      Extends (fun action ↦ action.queuedSegment = none) session (tryFlush results session) :=
    (tryFlush_flushed results session).calls.mono fun _ ↦ houtput
  obtain ⟨before, after, htrace, hbefore, hafter⟩ := trace_step hrecv hflush rfl session event
  have hturns : queuedSegments
      ((session.turnsOf event).flatMap fun turn ↦ turnCalls (turn.2 0) turn.1) =
        (session.turnsOf event).flatMap fun turn ↦ turnSegments (turn.2 0) turn.1 := by
    rw [queuedSegments, List.filterMap_flatMap]
    exact List.flatMap_congr fun turn _ ↦ queuedSegments_turnCalls (turn.2 0) turn.1
  rw [htrace, queuedSegments_append, queuedSegments_append, queuedSegments_append,
    queuedSegments_of_none hbefore, queuedSegments_of_none hafter, hturns, List.nil_append,
    List.append_nil]

end Session

end WebServer
