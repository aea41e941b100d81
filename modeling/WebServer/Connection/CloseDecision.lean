import WebServer.Connection.Output
import WebServer.Connection.Effects

/-!
# After the close decision

`_closeAfterFlush` is the decision to close a connection once its output has been sent. The flag is
never taken back, but `processRequests` does not look at it: a read event that arrives while the
flush is blocked parses the buffer again and answers what it finds there. This module says for which
runs a connection only drains after the decision, and for which runs the output queue stays bounded.
-/

namespace WebServer

open Bytes HttpServer OutSegment Execution

namespace Session

variable {session session' session'' : Session}

/-! ## What is sent and what is left -/

/-- The accepted bytes and the queue together are the same before and after. -/
def Conserves (session session' : Session) : Prop :=
  accepted session'.trace ++ denoteQueue session'.server.outQueue =
    accepted session.trace ++ denoteQueue session.server.outQueue

theorem Conserves.trans (h₁ : Conserves session session') (h₂ : Conserves session' session'') :
    Conserves session session'' :=
  Eq.trans h₂ h₁

theorem Conserves.of_extends {kind : Action → Prop} (h : Extends kind session session')
    (hkind : ∀ action, kind action → action.acceptedBytes = [])
    (hqueue : session'.server.outQueue = session.server.outQueue) :
    Conserves session session' := by
  obtain ⟨calls, htrace, hcalls⟩ := h
  have hnil : accepted calls = [] := by
    rw [accepted, List.flatMap_eq_nil_iff]
    exact fun action hmem ↦ hkind action (hcalls action hmem)
  rw [Conserves, htrace, accepted_append, hnil, List.append_nil, hqueue]

theorem IsInputCall.acceptedBytes {action : Action} (h : IsInputCall action) :
    action.acceptedBytes = [] := by
  cases action <;> first | rfl | exact absurd h id

theorem conserves_recvIntoBuffer (session : Session) (recvs : List RecvResult) :
    Conserves session (session.recvIntoBuffer recvs) :=
  .of_extends (recvIntoBuffer_extends session recvs).1 (fun _ h ↦ h.acceptedBytes)
    (by rw [recvIntoBuffer_server])

theorem conserves_unregisterWrite (session : Session) :
    Conserves session session.unregisterWrite := by
  unfold unregisterWrite
  split <;> simp [Conserves]

theorem conserves_finishFlush (session : Session) : Conserves session session.finishFlush := by
  rw [finishFlush_eq]
  split
  · exact (conserves_unregisterWrite session).trans (by simp [Conserves])
  · exact conserves_unregisterWrite session

theorem IsIdleCall.acceptedBytes {result : SysResult} {action : Action}
    (h : IsIdleCall result action) : action.acceptedBytes = [] :=
  h.silent.1

theorem FlushEnd.conserves (h : FlushEnd session session') : Conserves session session' := by
  cases h with
  | drained hqueue => exact conserves_finishFlush session
  | blocked result action hqueue hcall hblock =>
    unfold registerWrite
    split <;> simp [Conserves, hcall.acceptedBytes]
  | failed result action message hqueue hcall hret hblock =>
    simp [Conserves, hcall.acceptedBytes]

/-- A flush hands bytes of the queue to the kernel and loses none. -/
theorem conserves_tryFlush (results : ℕ → SysResult) (session : Session) :
    Conserves session (session.tryFlush results) := by
  refine tryFlush_induct (motive := Conserves) (fun s s' hend ↦ hend.conserves) ?_ results session
  intro s next s' hstep ih
  exact Conserves.trans hstep.conserves.1 ih

/-! ## Draining -/

/-- All that may happen to a connection after the close decision: nothing is answered, the bytes of
the queue go to the kernel in order, and the connection is closed when none is left. -/
structure OnlyDrains (session session' : Session) : Prop where
  decided : session'.server.closeAfterFlush = true
  calls : ∃ calls, session'.trace = session.trace ++ calls ∧ (∀ action ∈ calls, NoAnswer action) ∧
    accepted calls ++ denoteQueue session'.server.outQueue = denoteQueue session.server.outQueue
  closes : session'.server.outQueue = [] → session'.server.closed = true

theorem OnlyDrains.of_conserves (hdecided : session'.server.closeAfterFlush = true)
    (hextends : Extends NoAnswer session session') (hconserves : Conserves session session')
    (hcloses : session'.server.outQueue = [] → session'.server.closed = true) :
    OnlyDrains session session' := by
  obtain ⟨calls, htrace, hcalls⟩ := hextends
  refine ⟨hdecided, ⟨calls, htrace, hcalls, ?_⟩, hcloses⟩
  rw [Conserves, htrace, accepted_append, List.append_assoc] at hconserves
  exact List.append_cancel_left hconserves

theorem onlyDrains_of_closed (hclosed : session.server.closed = true)
    (hdecided : session.server.closeAfterFlush = true) : OnlyDrains session session :=
  .of_conserves hdecided (.refl session) rfl fun _ ↦ hclosed

theorem onlyDrains_tryFlush (hopen : session.server.closed = false)
    (hdecided : session.server.closeAfterFlush = true) (results : ℕ → SysResult) :
    OnlyDrains session (session.tryFlush results) := by
  have hflushed := tryFlush_flushed results session
  obtain ⟨queue, registered, closed, hserver⟩ := hflushed.server
  refine .of_conserves (by rw [hserver]; exact hdecided) (hflushed.calls.mono fun _ h ↦ h.noAnswer)
    (conserves_tryFlush results session) fun hnil ↦ ?_
  by_contra hnot
  have := hflushed.open_queue hopen (by simpa using hnot) hnil
  exact absurd (hdecided.symm.trans this) (by simp)

theorem OnlyDrains.of_recv {recvs : List RecvResult}
    (h : OnlyDrains (session.recvIntoBuffer recvs) session') : OnlyDrains session session' := by
  obtain ⟨hinput, -⟩ := recvIntoBuffer_extends session recvs
  obtain ⟨calls, htrace, hcalls, haccepted⟩ := h.calls
  have hextends : Extends NoAnswer session session' :=
    (hinput.mono fun _ hcall ↦ hcall.noAnswer).trans ⟨calls, htrace, hcalls⟩
  refine .of_conserves h.decided hextends
    ((conserves_recvIntoBuffer session recvs).trans ?_) h.closes
  rw [Conserves, htrace, accepted_append, List.append_assoc, haccepted]

/-! ## Reading after the decision -/

/-- A read event answers something whenever it leaves the buffer with a verdict. -/
theorem not_onlyDrains_handleRead {recvs : List RecvResult} (envs : ℕ → Env)
    (sends : ℕ → SysResult) (hopen : session.server.closed = false)
    (hdrained : (recvScan session.server.inBuffer.length recvs).2 = .drained)
    (hparse : HttpRequest.parse (session.server.inBuffer ++
      (recvScan session.server.inBuffer.length recvs).1) ≠ .needMore) :
    ¬ OnlyDrains session (session.handleRead recvs envs sends) := by
  intro hdrains
  rw [handleRead_of_drained envs sends hopen hdrained] at hdrains
  obtain ⟨calls, htrace, hcalls, -⟩ := hdrains.calls
  obtain ⟨received, hreceived, -⟩ := (recvIntoBuffer_extends session recvs).1
  obtain ⟨answers, hanswers, hanswered⟩ :=
    processRequests_answers envs (session.recvIntoBuffer recvs)
  obtain ⟨sent, hsent, -⟩ := (tryFlush_flushed sends
    ((session.recvIntoBuffer recvs).processRequests envs)).calls
  have heq : calls = received ++ (answers ++ sent) := by
    rw [hsent, hanswers, hreceived, List.append_assoc, List.append_assoc] at htrace
    exact (List.append_cancel_left htrace).symm
  rw [recvIntoBuffer_server] at hanswered
  obtain ⟨action, hmem, hanswer⟩ := hanswered hparse
  exact hcalls action (by simp [heq, hmem]) hanswer

/-- After the close decision a step must only drain. -/
def DrainsAfterDecision (session : Session) (event : Event) : Prop :=
  session.server.closeAfterFlush = true → OnlyDrains session (session.step event)

/-- A read event that finds the close decision taken, and does not close the connection itself, finds
less than a request in the buffer. -/
def NothingLeftToAnswer (session : Session) : Event → Prop
  | .read recvs _ _ => session.server.closeAfterFlush = true → session.server.closed = false →
      (recvScan session.server.inBuffer.length recvs).2 = .drained →
      HttpRequest.parse (session.server.inBuffer ++
        (recvScan session.server.inBuffer.length recvs).1) = .needMore
  | _ => True

theorem drainsAfterDecision_iff (session : Session) (event : Event) :
    session.DrainsAfterDecision event ↔ session.NothingLeftToAnswer event := by
  cases event with
  | read recvs envs sends =>
    constructor
    · intro hdrains hdecided hopen hdrained
      by_contra hparse
      exact not_onlyDrains_handleRead envs sends hopen hdrained hparse (hdrains hdecided)
    · intro hnothing hdecided
      unfold step
      dsimp only
      cases hopen : session.server.closed with
      | true =>
        rw [handleRead_of_closed envs sends hopen]
        exact onlyDrains_of_closed hopen hdecided
      | false =>
        by_cases hdrained : (recvScan session.server.inBuffer.length recvs).2 = .drained
        · have hneed : HttpRequest.parse (session.recvIntoBuffer recvs).server.inBuffer =
              .needMore := by
            rw [recvIntoBuffer_server]
            exact hnothing hdecided hopen hdrained
          rw [handleRead_of_drained envs sends hopen hdrained, processRequests_of_needMore envs hneed]
          refine (onlyDrains_tryFlush ?_ ?_ sends).of_recv
          · simp [recvIntoBuffer_server, hopen, hdrained]
          · simp [recvIntoBuffer_server, hdecided]
        · rw [handleRead_of_not_drained envs sends hopen hdrained]
          refine (onlyDrains_of_closed ?_ ?_).of_recv
          · simp [recvIntoBuffer_server, hdrained]
          · simp [recvIntoBuffer_server, hdecided]
  | write sends =>
    refine ⟨fun _ ↦ trivial, fun _ hdecided ↦ ?_⟩
    unfold step handleWrite
    dsimp only
    split
    · rename_i hclosed
      exact onlyDrains_of_closed hclosed hdecided
    · rename_i hopen
      exact onlyDrains_tryFlush (by simpa using hopen) hdecided sends
  | close =>
    refine ⟨fun _ ↦ trivial, fun _ hdecided ↦ ?_⟩
    unfold step
    dsimp only
    split
    · rename_i hclosed
      exact onlyDrains_of_closed hclosed hdecided
    · refine .of_conserves (by simpa using hdecided) ((Extends.refl session).snoc rfl id) ?_
        fun _ ↦ rfl
      simp [Conserves]

/-- A run answers nothing after the close decision exactly when no read event of the run, on an open
connection for which the decision was taken, leaves a buffer with a verdict of the parser. -/
theorem only_drains_after_close_decision (fd : ℕ) (clientIp : Bytes) (services : Services)
    (events : List Event) :
    Always step DrainsAfterDecision (new fd clientIp services) events ↔
      Always step NothingLeftToAnswer (new fd clientIp services) events :=
  always_congr (fun _ ↦ True) (fun _ _ _ ↦ trivial)
    (fun session event _ ↦ drainsAfterDecision_iff session event) trivial events

/-! ## A peer that is refused and does not read

Each event brings one more blank line and a socket that takes no output. The buffer starts with a
blank line from the first event on, so every event is refused with 400 again.
-/

/-- A read event with a blank line while the peer takes no output. -/
def refusedRead : Event :=
  .read [.received blankLine] (fun _ ↦ ⟨id, 0, 0, fun _ ↦ none⟩) (fun _ ↦ ⟨-1, eagain⟩)

theorem parse_blankLine_append (text : Bytes) : HttpRequest.parse (blankLine ++ text) = .error 400 :=
  have hend : Search.find blankLine blankLine = some 0 := rfl
  HttpRequest.parse_append_of_error hend rfl text

/-- A connection after `n` refused reads. -/
structure Refused (n : ℕ) (session : Session) : Prop where
  isOpen : session.server.closed = false
  decided : 0 < n → session.server.closeAfterFlush = true
  inBuffer : session.server.inBuffer = (List.replicate n blankLine).flatten
  length_outQueue : session.server.outQueue.length = n
  texts : ∀ segment ∈ session.server.outQueue, ∃ text, text ≠ [] ∧ segment = .bytes text

theorem recvScan_blankLine {size : ℕ} (h : size + 4 ≤ maxInBuffer) :
    recvScan size [.received blankLine] = (blankLine, .drained) := by
  have hsize : ¬ maxInBuffer < size + blankLine.length := by
    have : blankLine.length = 4 := rfl
    omega
  simp only [recvScan, if_neg hsize]
  rfl

/-- A flush that blocks at once only waits for the socket. -/
theorem tryFlush_blocked {results : ℕ → SysResult} (hblock : (results 0).wouldBlock = true)
    {text : Bytes} (htext : text ≠ []) {queue : List OutSegment}
    (hqueue : session.server.outQueue = .bytes text :: queue) :
    (session.tryFlush results).server = { session.server with writeRegistered := true } := by
  have hret : ¬ 0 < (results 0).ret := by
    have := of_decide_eq_true hblock
    omega
  have hturn : flushTurn (session, results) =
      .exit ((session.emit (.send (results 0) [])).stopSending (lit "send") (results 0)) := by
    simp only [flushTurn, hqueue, if_neg htext, if_neg hret]
  rw [tryFlush, flushLoop.run_of_exit hturn, stopSending, if_pos hblock, registerWrite_server,
    emit_server]

/-- What a refused read changes in a connection whose output does not fit into the socket. -/
theorem server_step_refusedRead (hopen : session.server.closed = false)
    (hscan : recvScan session.server.inBuffer.length [.received blankLine] = (blankLine, .drained))
    (hparse : HttpRequest.parse (session.server.inBuffer ++ blankLine) = .error 400)
    (htexts : ∀ segment ∈ session.server.outQueue ++ [.bytes (parseErrorResponse 400).toString],
      ∃ text, text ≠ [] ∧ segment = .bytes text) :
    (session.step refusedRead).server =
      { session.server with
        inBuffer := session.server.inBuffer ++ blankLine
        outQueue := session.server.outQueue ++ [.bytes (parseErrorResponse 400).toString]
        closeAfterFlush := true
        writeRegistered := true } := by
  have hreceived : (session.recvIntoBuffer [.received blankLine]).server =
      { session.server with inBuffer := session.server.inBuffer ++ blankLine } := by
    simp [recvIntoBuffer_server, hscan]
  have hrequests (envs : ℕ → Env) :
      (session.recvIntoBuffer [.received blankLine]).processRequests envs =
        (session.recvIntoBuffer [.received blankLine]).reject 400 := by
    have hrefused : HttpRequest.parse
        (session.recvIntoBuffer [.received blankLine]).server.inBuffer = .error 400 := by
      rw [hreceived]
      exact hparse
    refine processLoop.run_of_exit ?_
    simp only [processLoop, processTurn_error hrefused]
  unfold Session.step refusedRead
  dsimp only
  rw [handleRead_of_drained _ _ hopen (by rw [hscan]), hrequests]
  cases hqueue : session.server.outQueue ++ [.bytes (parseErrorResponse 400).toString] with
  | nil => exact absurd hqueue (by simp)
  | cons segment queue =>
    obtain ⟨text, htext, rfl⟩ := htexts segment (by simp [hqueue])
    have hblocked : ((session.recvIntoBuffer [.received blankLine]).reject 400).server.outQueue =
        .bytes text :: queue := by
      rw [reject_eq, hreceived]
      exact hqueue
    rw [tryFlush_blocked rfl htext hblocked]
    simp [reject_eq, hreceived, hqueue]

theorem Refused.step {n : ℕ} (h : session.Refused n) (hn : 4 * (n + 1) ≤ maxInBuffer) :
    (session.step refusedRead).Refused (n + 1) := by
  have hlen : session.server.inBuffer.length = 4 * n := by
    rw [h.inBuffer]
    simp [blankLine, Nat.mul_comm]
  have hscan : recvScan session.server.inBuffer.length [.received blankLine] =
      (blankLine, .drained) := recvScan_blankLine (by omega)
  have hbuffer : session.server.inBuffer ++ blankLine =
      blankLine ++ (List.replicate n blankLine).flatten := by
    rw [h.inBuffer, ← List.flatten_concat, ← List.replicate_succ', List.replicate_succ,
      List.flatten_cons]
  have hparse : HttpRequest.parse (session.server.inBuffer ++ blankLine) = .error 400 := by
    rw [hbuffer]
    exact parse_blankLine_append _
  have hresponse : (parseErrorResponse 400).toString ≠ [] := by
    simp [HttpResponse.toString, HttpResponse.toStringHeaders, crlf]
  have htexts : ∀ segment ∈ session.server.outQueue ++ [.bytes (parseErrorResponse 400).toString],
      ∃ text, text ≠ [] ∧ segment = .bytes text := by
    intro segment hmem
    rcases List.mem_append.mp hmem with hold | hnew
    · exact h.texts segment hold
    · exact ⟨_, hresponse, List.mem_singleton.mp hnew⟩
  have hserver := server_step_refusedRead h.isOpen hscan hparse htexts
  rw [hbuffer] at hserver
  refine ⟨by rw [hserver]; exact h.isOpen, fun _ ↦ by rw [hserver], ?_, ?_, ?_⟩
  · rw [hserver, List.replicate_succ, List.flatten_cons]
  · simp [hserver, h.length_outQueue]
  · rw [hserver]
    exact htexts

theorem refused_replicate (fd : ℕ) (clientIp : Bytes) (services : Services) {n : ℕ}
    (hn : 4 * n ≤ maxInBuffer) :
    (run step (new fd clientIp services) (List.replicate n refusedRead)).Refused n := by
  induction n with
  | zero => exact ⟨rfl, by simp, rfl, rfl, by simp [new, HttpServer.new]⟩
  | succ n ih =>
    rw [List.replicate_succ', run_append]
    exact (ih (by omega)).step hn

/-- A peer that is refused and does not read is answered again by the next read event. -/
theorem answers_after_close_decision :
    ¬ Always step DrainsAfterDecision (new 7 (lit "10.0.0.1") ⟨⟨∅⟩, .new, .static⟩)
      [refusedRead, refusedRead] := by
  rintro ⟨-, hsecond, -⟩
  have hrefused := refused_replicate 7 (lit "10.0.0.1") ⟨⟨∅⟩, .new, .static⟩ (n := 1) (by decide)
  rw [List.replicate_one, run_cons, run_nil] at hrefused
  have hlen : (step (new 7 (lit "10.0.0.1") ⟨⟨∅⟩, .new, .static⟩)
      refusedRead).server.inBuffer = blankLine := by
    rw [hrefused.inBuffer]
    rfl
  have hneed := (drainsAfterDecision_iff _ _).mp hsecond (hrefused.decided (by decide))
    hrefused.isOpen (by rw [hlen]; rfl)
  rw [hlen, recvScan_blankLine (by decide), parse_blankLine_append] at hneed
  exact absurd hneed (by simp)

end Session

end WebServer
