import WebServer.Connection.Turns
import WebServer.Http.HeaderLines
import WebServer.Loop.EventLoop
import WebServer.Service.EscapedLineFeed
import WebServer.Service.LogRecords

/-!
# What a connection logs

Most messages of a connection are put together from fixed texts and numbers. The warning about a static
file that cannot be opened holds the path of the file, which is the only part of a message that a client
chooses. So a message has a newline just if such a path has one, and the path gets it from an escape in
the path of the request.
-/

namespace WebServer

open Bytes HttpServer Execution Lines

namespace Action

/-- The call of `log` behind a call of the connection with descriptor `fd`; the close is logged by its
event loop. -/
def logged (loop : EventLoop) (fd : ℕ) : Action → Option (LogLevel × Bytes)
  | log level message => some (level, message)
  | closeConnection => some (.debug, loop.logText (lit "连接关闭 fd: " ++ decimal fd))
  | _ => none

/-- A warning of the connection, if the call is one, has no newline. -/
def SingleLine : Action → Prop
  | log _ message => lf ∉ message
  | _ => True

end Action

/-- What is logged on the way, in order. -/
def loggedBy (loop : EventLoop) (fd : ℕ) (trace : List Action) : List (LogLevel × Bytes) :=
  trace.filterMap (Action.logged loop fd)

theorem lf_notMem_logText (loop : EventLoop) {message : Bytes} (h : lf ∉ message) :
    lf ∉ loop.logText message := by
  have hopening : lf ∉ lit "loop[" := by decide
  have hclosing : lf ∉ lit "] " := by decide
  simp [EventLoop.logText, hopening, hclosing, lf_notMem_decimal, h]

theorem forall_loggedBy_iff (loop : EventLoop) (fd : ℕ) (trace : List Action) :
    (∀ entry ∈ loggedBy loop fd trace, lf ∉ entry.2) ↔ ∀ action ∈ trace, action.SingleLine := by
  have hclose : lf ∉ loop.logText (lit "连接关闭 fd: " ++ decimal fd) := by
    have htext : lf ∉ lit "连接关闭 fd: " := by decide
    exact lf_notMem_logText loop (by simp [htext, lf_notMem_decimal])
  have haction (action : Action) :
      (∀ entry ∈ action.logged loop fd, lf ∉ entry.2) ↔ action.SingleLine := by
    cases action <;> simp [Action.logged, Action.SingleLine, hclose]
  simp only [loggedBy, List.mem_filterMap, ← haction, Option.mem_def]
  constructor
  · intro h action hmem entry hentry
    exact h entry ⟨action, hmem, hentry⟩
  · rintro h entry ⟨action, hmem, hentry⟩
    exact h action hmem entry hentry

namespace Session

/-! ## Fixed messages -/

theorem lf_notMem_fdText (session : Session) : lf ∉ session.fdText := lf_notMem_decimal _

theorem recvIntoBuffer_singleLine (session : Session) (recvs : List RecvResult) :
    Extends Action.SingleLine session (recvIntoBuffer recvs session) := by
  induction recvs generalizing session with
  | nil => exact (Extends.refl session).snoc rfl trivial
  | cons result recvs ih =>
    have hcall : Extends Action.SingleLine session (session.emit (.recv result)) :=
      (Extends.refl session).snoc rfl trivial
    have hlog {message : Bytes} (hmessage : lf ∉ message) : Extends Action.SingleLine session
        ((session.emit (.recv result)).log .warning message) :=
      hcall.snoc rfl hmessage
    cases result with
    | received data =>
      unfold recvIntoBuffer
      dsimp only
      split
      · exact hcall.snoc rfl trivial
      · have happend : Extends Action.SingleLine session
            ((session.emit (.recv (.received data))).setServer
              { session.server with inBuffer := session.server.inBuffer ++ data }) :=
          hcall.trans (.of_trace_eq rfl)
        split
        · have htext : lf ∉ lit "输入缓冲超限, 关闭连接 fd: " := by decide
          have hmessage : Action.SingleLine
              (.log .warning (lit "输入缓冲超限, 关闭连接 fd: " ++ session.fdText)) := by
            simp [Action.SingleLine, htext, lf_notMem_fdText]
          exact (happend.snoc rfl hmessage).snoc rfl trivial
        · exact happend.trans (ih _)
    | failed errno =>
      unfold recvIntoBuffer
      dsimp only
      split
      · exact hcall
      · have htext : lf ∉ lit "recv 错误 fd: " := by decide
        have herrno : lf ∉ lit " errno: " := by decide
        have hmessage : lf ∉ lit "recv 错误 fd: " ++ session.fdText ++ lit " errno: " ++
            decimal errno := by
          simp [htext, herrno, lf_notMem_fdText, lf_notMem_decimal]
        exact (hlog hmessage).snoc rfl trivial

theorem stopSending_singleLine (session : Session) {call : Bytes} (hcall : lf ∉ call)
    (result : SysResult) : Extends Action.SingleLine session (session.stopSending call result) := by
  unfold stopSending
  split
  · unfold registerWrite
    split
    · exact .refl session
    · exact (Extends.refl session).snoc rfl trivial
  · have htext : lf ∉ lit " 错误 fd: " := by decide
    have herrno : lf ∉ lit " errno: " := by decide
    have hlog : Extends Action.SingleLine session (session.log .warning (call ++ lit " 错误 fd: " ++
        session.fdText ++ lit " errno: " ++ decimal result.errno)) :=
      (Extends.refl session).snoc rfl
        (by simp [Action.SingleLine, hcall, htext, herrno, lf_notMem_fdText, lf_notMem_decimal])
    exact hlog.snoc rfl trivial

theorem finishFlush_singleLine (session : Session) :
    Extends Action.SingleLine session session.finishFlush := by
  have hunregister : Extends Action.SingleLine session session.unregisterWrite := by
    unfold unregisterWrite
    split
    · exact (Extends.refl session).snoc rfl trivial
    · exact .refl session
  rw [finishFlush_eq]
  split
  · exact hunregister.snoc rfl trivial
  · exact hunregister

theorem FlushStep.singleLine {session next : Session} (h : FlushStep session next) :
    Extends Action.SingleLine session next := by
  cases h with
  | popBytes hqueue => exact .of_trace_eq rfl
  | send | popFile | sendfile => exact (Extends.refl session).snoc rfl trivial

/-- A flush that ends logs the name of the call that failed, and numbers. -/
theorem flushTurn_singleLine {state : Session × (ℕ → SysResult)} {session' : Session}
    (h : flushTurn state = .exit session') : Extends Action.SingleLine state.1 session' := by
  obtain ⟨session, results⟩ := state
  have hidle {action : Action} {call : Bytes}
      (hstop : (session.emit action).stopSending call (results 0) = session')
      (haction : action.SingleLine) (hcall : lf ∉ call) : Extends Action.SingleLine session session' := by
    have hemit : Extends Action.SingleLine session (session.emit action) :=
      (Extends.refl session).snoc rfl haction
    exact hstop ▸ hemit.trans (stopSending_singleLine _ hcall _)
  unfold flushTurn at h
  dsimp only at h
  split at h
  · obtain rfl := Turn.exit.inj h
    exact finishFlush_singleLine session
  · split at h
    · exact absurd h (by simp)
    · split at h
      · exact absurd h (by simp)
      · exact hidle (Turn.exit.inj h) trivial (by decide)
  · split at h
    · exact absurd h (by simp)
    · split at h
      · exact absurd h (by simp)
      · exact hidle (Turn.exit.inj h) trivial (by decide)

theorem tryFlush_singleLine (session : Session) (results : ℕ → SysResult) :
    Extends Action.SingleLine session (tryFlush results session) := by
  refine flushLoop.run_induct
    (motive := fun state result ↦ Extends Action.SingleLine state.1 result) ?_ ?_ (session, results)
  · intro state result hbody
    exact flushTurn_singleLine hbody
  · intro state state' result hbody hresult
    exact (flushTurn_of_next hbody).1.singleLine.trans hresult

/-! ## The warning about a file -/

/-- The request asks for a static file that cannot be opened, and its path escapes a line feed. -/
def LogsLineFeed (env : Env) (session : Session) (request : HttpRequest) : Prop :=
  EscapesLineFeed request.path ∧ ∃ rel ∈ requestedFile request, ¬ Forbidden rel ∧
    env.openFile (cString ((env.others session.services).staticRoot.path ++ lit "/" ++ rel)) = none

theorem fileAnswer_singleLine_iff (env : Env) (keepAlive : Bool) (services : Services) (path : Bytes) :
    (∀ action ∈ (fileAnswer env keepAlive services path).calls, action.SingleLine) ↔
      (env.openFile (cString path) = none → lf ∉ path) := by
  have htext : lf ∉ lit "打开静态文件失败: " := by decide
  unfold fileAnswer
  cases env.openFile (cString path) with
  | none => simp [Action.SingleLine, htext]
  | some opened =>
    obtain ⟨fd, stat, content⟩ := opened
    obtain _ | ⟨_ | _, size⟩ := stat <;> simp [Action.SingleLine]

/-- The calls for a request log a line feed just if the request escapes one in the name of a file that
cannot be opened. -/
theorem nextAnswer_singleLine_iff {env : Env} {session : Session} {request : HttpRequest}
    (hslash : request.path.head? = some slash) (hspace : lf ∉ request.path) :
    (∀ action ∈ (session.nextAnswer env request).calls, action.SingleLine) ↔
      ¬ LogsLineFeed env session request := by
  unfold nextAnswer answer route
  cases hfile : requestedFile request with
  | none =>
    refine iff_of_true ?_ ?_
    · cases hdispatch : Router.dispatch getRouter request (initialResponse request.keepAlive)
          session.server.clientIp env.now env.cleanupNow (env.others session.services) with
      | none => simp
      | some result =>
        obtain ⟨response, services⟩ := result
        have hnone : response.hasFile = false :=
          (dispatch_without_file hslash _ _ _ _ _ hfile hdispatch).trans
            (by cases request.keepAlive <;> rfl)
        simp [hnone]
    · rintro ⟨-, rel, hrel, -⟩
      exact absurd (hfile.symm.trans hrel) (by simp)
  | some rel =>
    have hroot (root : StaticRoot) : lf ∉ root.path := by cases root <;> decide
    have hblank : lf ∉ lit "/" := by decide
    rw [dispatch_of_requestedFile hslash _ _ _ _ _ hfile]
    by_cases hforbidden : Forbidden rel
    · have hrefused : (forbidden (initialResponse request.keepAlive)).hasFile = false := by
        cases request.keepAlive <;> rfl
      rw [if_pos hforbidden]
      dsimp only
      rw [if_neg (by simp [hrefused])]
      refine iff_of_true (by simp) ?_
      rintro ⟨-, rel', hrel', hallowed, -⟩
      obtain rfl := Option.some.inj (hfile.symm.trans hrel')
      exact hallowed hforbidden
    · rw [if_neg hforbidden]
      dsimp only [HttpResponse.setFile]
      rw [if_pos rfl, fileAnswer_singleLine_iff]
      simp only [LogsLineFeed, hfile, Option.mem_some_iff, exists_eq_left', hforbidden, not_false_eq_true,
        true_and, List.mem_append, hroot, hblank, false_or, lf_mem_requestedFile_iff hfile hspace]
      tauto

/-! ## Turns and runs -/

/-- A turn logs a line feed just if its request does. -/
theorem turnCalls_singleLine_iff (env : Env) (session : Session) :
    (∀ action ∈ turnCalls env session, action.SingleLine) ↔
      ∀ request consumed, HttpRequest.parse session.server.inBuffer = .ok request consumed →
        ¬ LogsLineFeed env session request := by
  cases hparse : HttpRequest.parse session.server.inBuffer with
  | needMore => simp [turnCalls_of_needMore env hparse]
  | error errorCode => simp [turnCalls_of_error env hparse, Action.SingleLine]
  | ok request consumed =>
    obtain ⟨warnings, hcalls, hwarnings⟩ := turnCalls_of_ok env hparse
    have hwarned : ∀ action ∈ warnings, action.SingleLine := by
      intro action hmem
      have htext : lf ∉ lit "输出队列超限, 关闭连接 fd: " := by decide
      rw [hwarnings action hmem]
      simp [Action.SingleLine, htext, lf_notMem_fdText]
    have hqueued : ∀ action ∈ (session.nextAnswer env request).segments.map Action.enqueue,
        action.SingleLine := by
      intro action hmem
      obtain ⟨segment, -, rfl⟩ := List.mem_map.mp hmem
      trivial
    have hdispatched : (Action.dispatch request).SingleLine := trivial
    obtain ⟨hslash, hspace⟩ := HttpRequest.parse_path hparse
    have hpath : lf ∉ request.path := fun hmem ↦ absurd (hspace lf hmem) (by decide)
    rw [hcalls, List.forall_mem_cons, List.forall_mem_append, List.forall_mem_append,
      nextAnswer_singleLine_iff hslash hpath]
    constructor
    · rintro ⟨-, ⟨hcalls, -⟩, -⟩ request' consumed' heq
      obtain ⟨rfl, -⟩ := Verdict.ok.inj heq
      exact hcalls
    · exact fun h ↦ ⟨hdispatched, ⟨h request consumed rfl, hqueued⟩, hwarned⟩

/-- No request in the event logs a line feed. -/
def LogsNoLineFeed (session : Session) (event : Event) : Prop :=
  ∀ turn ∈ session.turnsOf event, ∀ request consumed,
    HttpRequest.parse turn.1.server.inBuffer = .ok request consumed →
      ¬ LogsLineFeed (turn.2 0) turn.1 request

theorem step_singleLine_iff (session : Session) (event : Event) :
    (∀ action ∈ (session.step event).trace, action.SingleLine) ↔
      (∀ action ∈ session.trace, action.SingleLine) ∧ session.LogsNoLineFeed event := by
  obtain ⟨before, after, htrace, hbefore, hafter⟩ :=
    trace_step recvIntoBuffer_singleLine tryFlush_singleLine trivial session event
  have hturns : (∀ action ∈ (session.turnsOf event).flatMap fun turn ↦ turnCalls (turn.2 0) turn.1,
      action.SingleLine) ↔ session.LogsNoLineFeed event := by
    simp only [List.mem_flatMap, forall_exists_index, and_imp]
    rw [forall_comm]
    apply forall_congr'
    intro turn
    rw [forall_comm]
    exact forall_congr' fun _ ↦ turnCalls_singleLine_iff (turn.2 0) turn.1
  rw [htrace, List.forall_mem_append, List.forall_mem_append, List.forall_mem_append, hturns]
  exact and_congr_right fun _ ↦ ⟨fun h ↦ h.1.2, fun h ↦ ⟨⟨hbefore, h⟩, hafter⟩⟩

/-- The messages of a run have no newline just if no request on the way logs a line feed. -/
theorem run_singleLine_iff (session : Session) (events : List Event) :
    (∀ action ∈ (run step session events).trace, action.SingleLine) ↔
      (∀ action ∈ session.trace, action.SingleLine) ∧ Always step LogsNoLineFeed session events := by
  induction events generalizing session with
  | nil => exact (and_iff_left trivial).symm
  | cons event events ih =>
    rw [run_cons]
    calc
      _ ↔ (∀ action ∈ (session.step event).trace, action.SingleLine) ∧
          Always step LogsNoLineFeed (session.step event) events := ih (session.step event)
      _ ↔ ((∀ action ∈ session.trace, action.SingleLine) ∧ session.LogsNoLineFeed event) ∧
          Always step LogsNoLineFeed (session.step event) events :=
        and_congr_left' (step_singleLine_iff session event)
      _ ↔ _ := and_assoc

end Session

/-! ## The log file -/

/-- Whenever these calls of `log`, and calls of other threads whose records have no newline, are made in
any order and the steps of the logger follow in any order, the log has one line for each call. -/
def LoggedLineByLine (entries : List (LogLevel × Bytes)) : Prop :=
  ∀ own others : List LogCall, List.Forall₂ (fun entry call ↦ call.Logs entry.1 entry.2) entries own →
    (∀ call ∈ others, lf ∉ call.logMsg) →
    ∀ level maxQueueSize inputs, 1 ≤ maxQueueSize →
      (AsyncLogger.calledBy inputs).Perm (own ++ others) →
      (run AsyncLogger.step (.init level maxQueueSize) inputs).LineForEach
        (AsyncLogger.acceptedBy (.init level maxQueueSize) inputs)

/-- A call as it can be made for an entry. -/
def sampleCall (entry : LogLevel × Bytes) : LogCall where
  level := entry.1
  message := entry.2
  file := lit "HttpServer.cpp"
  line := 332
  time := getCurrentTimeMicros ⟨2025, 1, 2, 3, 4, 5, 6⟩

theorem sampleCall_logs (entry : LogLevel × Bytes) : (sampleCall entry).Logs entry.1 entry.2 :=
  have hfile : lf ∉ lit "HttpServer.cpp" := by decide
  ⟨rfl, rfl, hfile, _, rfl⟩

theorem loggedLineByLine_iff (entries : List (LogLevel × Bytes)) :
    LoggedLineByLine entries ↔ ∀ entry ∈ entries, lf ∉ entry.2 := by
  constructor
  · intro h entry hentry
    have hown : List.Forall₂ (fun entry call ↦ LogCall.Logs call entry.1 entry.2) entries
        (entries.map sampleCall) :=
      List.forall₂_map_right_iff.mpr (List.forall₂_same.mpr fun entry _ ↦ sampleCall_logs entry)
    have hlines := h _ [] hown (by simp)
    rw [List.append_nil] at hlines
    have hcall := (AsyncLogger.lineForEach_iff _).mp hlines _ (List.mem_map_of_mem hentry)
    exact (sampleCall_logs entry).lf_mem_logMsg_iff.not.mp hcall
  · intro h own others hown hothers
    apply (AsyncLogger.lineForEach_iff _).mpr
    intro call hcall
    have hrecords : ∀ call ∈ own, lf ∉ call.logMsg :=
      forall₂_forall_right hown (fun _ _ hlogs ↦ hlogs.lf_mem_logMsg_iff.not.mpr) h
    obtain hmem | hmem := List.mem_append.mp hcall
    · exact hrecords call hmem
    · exact hothers call hmem

namespace Session

/-- In every run of a connection, whatever the client sends and whatever the file system is, the calls
of `log` add one line each to the log file if and only if no request asks for a static file that cannot
be opened by a path that escapes a line feed. -/
theorem log_lineByLine_iff (loop : EventLoop) (fd : ℕ) (clientIp : Bytes) (services : Services)
    (events : List Event) :
    LoggedLineByLine (loggedBy loop fd (run step (new fd clientIp services) events).trace) ↔
      Always step LogsNoLineFeed (new fd clientIp services) events := by
  have hnew : ∀ action ∈ (new fd clientIp services).trace, action.SingleLine := by simp [new]
  calc
    _ ↔ ∀ entry ∈ loggedBy loop fd (run step (new fd clientIp services) events).trace, lf ∉ entry.2 :=
      loggedLineByLine_iff _
    _ ↔ ∀ action ∈ (run step (new fd clientIp services) events).trace, action.SingleLine :=
      forall_loggedBy_iff loop fd _
    _ ↔ (∀ action ∈ (new fd clientIp services).trace, action.SingleLine) ∧
        Always step LogsNoLineFeed (new fd clientIp services) events := run_singleLine_iff _ events
    _ ↔ _ := and_iff_right hnew

/-- A client that asks for a file that does not exist, with an escaped line feed in its name. -/
def lineFeedRead : Event :=
  .read [.received (lit "GET /static/%0A[INFO] HTTP/1.1\r\n\r\n")]
    (fun _ ↦ ⟨id, 0, 0, fun _ ↦ none⟩) fun _ ↦ ⟨200, 0⟩

/-- The record of the warning about this file begins a second line. -/
theorem log_line_of_client : ¬ ∀ loop fd clientIp services events,
    LoggedLineByLine (loggedBy loop fd (run step (new fd clientIp services) events).trace) := by
  intro h
  have hlines := h (.new 0 ⟨⟨∅⟩, .new, .static⟩) 7 (lit "10.0.0.1") ⟨⟨∅⟩, .new, .static⟩ [lineFeedRead]
  exact absurd ((loggedLineByLine_iff _).mp hlines) (by decide)

end Session

end WebServer
