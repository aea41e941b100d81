import WebServer.Loop.EdgeTriggered

/-!
# The loop comes to rest

Edge-triggered epoll is asked again and again only if something changes. While the network does nothing,
a report is answered in one go: the handlers find a result for each of their calls, and afterwards
nothing is pending, because a mask is changed only to one that the socket is not ready for. So a loop
sleeps until the network moves, and no connection keeps it awake.
-/

namespace WebServer

open Bytes HttpServer OutSegment Execution

/-! ## A network that does nothing -/

namespace Socket

variable {socket socket' : Socket} {action : Action} {calls : List Action}

/-- Only a new mask makes the kernel report something by itself. -/
theorem pending_answer (haction : Session.KeepsInterest action) (h : socket.answer action = some socket') :
    socket'.pending = socket.pending := by
  unfold answer at h
  split at h
  · split at h
    · split at h
      · obtain rfl := Option.some.inj h
        rfl
      · exact absurd h (by simp)
    · split at h
      · obtain rfl := Option.some.inj h
        rfl
      · exact absurd h (by simp)
  · split at h
    · exact absurd h (by simp)
    · obtain rfl := Option.some.inj h
      rfl
  · obtain rfl := Option.some.inj h
    unfold block
    split <;> rfl
  · obtain rfl := Option.some.inj h
    unfold block
    split <;> rfl
  · rename_i events
    exact absurd rfl (haction events)
  · obtain rfl := Option.some.inj h
    rfl

theorem pending_answers (hcalls : ∀ action ∈ calls, Session.KeepsInterest action)
    (h : answers calls socket = some socket') : socket'.pending = socket.pending := by
  induction calls generalizing socket with
  | nil =>
    obtain rfl := Option.some.inj h
    rfl
  | cons action calls ih =>
    obtain ⟨haction, hcalls⟩ := List.forall_mem_cons.mp hcalls
    obtain ⟨next, hanswer, hrest⟩ := answers_cons_some h
    exact (ih hcalls hrest).trans (pending_answer haction hanswer)

/-- Nothing is there and nothing is reported. -/
structure Quiet (socket : Socket) : Prop where
  pending : socket.pending = false
  unread : socket.unread = []
  ended : socket.ended = false

theorem Quiet.answer (h : socket.Quiet) (haction : Session.KeepsInterest action)
    (hanswer : socket.answer action = some socket') : socket'.Quiet := by
  have hanswered := answered hanswer
  have hunread := hanswered.unread
  rw [h.unread] at hunread
  refine ⟨(pending_answer haction hanswer).trans h.pending, ?_, hanswered.ended.trans h.ended⟩
  exact (List.append_eq_nil_iff.mp hunread.symm).2

theorem Quiet.answers (h : socket.Quiet) (hcalls : ∀ action ∈ calls, Session.KeepsInterest action)
    (hanswers : Socket.answers calls socket = some socket') : socket'.Quiet := by
  induction calls generalizing socket with
  | nil =>
    obtain rfl := Option.some.inj hanswers
    exact h
  | cons action calls ih =>
    obtain ⟨haction, hcalls⟩ := List.forall_mem_cons.mp hcalls
    obtain ⟨next, hanswer, hrest⟩ := answers_cons_some hanswers
    exact ih (h.answer haction hanswer) hcalls hrest

/-- A mask the socket is not ready for is no reason to report it. -/
theorem Quiet.modify (h : socket.Quiet) (writable : Bool)
    (hroom : writable = true → socket.blocked = true) :
    (socket.modify (Session.interest writable)).Quiet := by
  refine ⟨?_, h.unread, h.ended⟩
  cases writable with
  | false => simp [Socket.modify, report, Session.interest, h.pending, h.unread, h.ended]
  | true => simp [Socket.modify, report, Session.interest, h.pending, h.unread, h.ended, hroom rfl]

end Socket

/-! ## A report is dealt with -/

namespace Session

variable {session : Session} {socket socket' : Socket} {calls : List Action}

/-- A flush that keeps the connection open changes the mask to one the socket is not ready for. -/
theorem FlushEnd.quiet {session' : Session} (h : FlushEnd session session')
    (htrace : session'.trace = session.trace ++ calls) (hquiet : socket.Quiet)
    (hanswers : Socket.answers calls socket = some socket')
    (hopen : session'.server.closed = false) : socket'.Quiet := by
  cases h with
  | drained hqueue =>
    rw [finishFlush_eq] at htrace hopen
    split at htrace
    · rename_i hclosing
      rw [if_pos hclosing] at hopen
      exact absurd hopen (by simp)
    · unfold unregisterWrite at htrace
      split at htrace
      · obtain rfl := (List.append_cancel_left htrace).symm
        obtain rfl := Option.some.inj (Socket.answers_singleton hanswers)
        exact hquiet.modify false (by simp)
      · obtain rfl := List.self_eq_append_right.mp htrace
        exact hquiet.answers (by simp) hanswers
  | blocked result action hqueue hcall hblock =>
    have hblocked {next : Socket} (hanswer : socket.answer action = some next) : next.blocked = true := by
      obtain rfl | ⟨fileFd, rfl⟩ := hcall
      · obtain rfl := Option.some.inj hanswer
        simp [Socket.block, hblock]
      · obtain rfl := Option.some.inj hanswer
        simp [Socket.block, hblock]
    unfold registerWrite at htrace
    split at htrace
    · obtain rfl : calls = [action] := (List.append_cancel_left htrace).symm
      exact hquiet.answer hcall.keepsInterest (Socket.answers_singleton hanswers)
    · obtain rfl : calls = [action, .updateEvents (interest true)] := by
        simp only [emit_trace, setServer_trace, List.append_assoc] at htrace
        exact (List.append_cancel_left htrace).symm
      obtain ⟨next, hanswer, hupdate⟩ := Socket.answers_cons_some hanswers
      obtain rfl := Option.some.inj (Socket.answers_singleton hupdate)
      exact (hquiet.answer hcall.keepsInterest hanswer).modify true fun _ ↦ hblocked hanswer
  | failed => exact absurd hopen (by simp)

theorem FlushStep.keepsInterest {next : Session} (h : FlushStep session next) :
    Extends KeepsInterest session next := by
  cases h with
  | popBytes => exact .of_trace_eq rfl
  | send | popFile | sendfile => exact (Extends.refl session).snoc rfl (by simp [KeepsInterest])

theorem tryFlush_quiet (results : ℕ → SysResult)
    (htrace : (session.tryFlush results).trace = session.trace ++ calls) (hquiet : socket.Quiet)
    (hanswers : Socket.answers calls socket = some socket')
    (hopen : (session.tryFlush results).server.closed = false) : socket'.Quiet := by
  have hflush : session.trace <+: (session.tryFlush results).trace ∧ ∀ socket calls,
      (session.tryFlush results).trace = session.trace ++ calls → socket.Quiet →
        Socket.answers calls socket = some socket' →
        (session.tryFlush results).server.closed = false → socket'.Quiet := by
    apply tryFlush_induct (motive := fun s s' ↦ s.trace <+: s'.trace ∧ ∀ socket calls,
      s'.trace = s.trace ++ calls → socket.Quiet → Socket.answers calls socket = some socket' →
        s'.server.closed = false → socket'.Quiet)
    · intro s s' hend
      obtain ⟨calls, hcalls, -⟩ := hend.keepsInput
      refine ⟨⟨calls, hcalls.symm⟩, ?_⟩
      intro socket calls hcalls hs hanswered hstill
      exact hend.quiet hcalls hs hanswered hstill
    · intro s next s' hstep ih
      obtain ⟨⟨later, hlater⟩, ih⟩ := ih
      obtain ⟨first, hfirst, hkeeps⟩ := hstep.keepsInterest
      refine ⟨⟨first ++ later, by rw [← hlater, hfirst, List.append_assoc]⟩, ?_⟩
      intro socket calls hcalls hs hanswered hstill
      obtain rfl : calls = first ++ later := by
        rw [← hlater, hfirst, List.append_assoc] at hcalls
        exact (List.append_cancel_left hcalls).symm
      obtain ⟨middle, hmiddle, hrest⟩ := Socket.answers_append_some hanswered
      exact ih middle later hlater.symm (hs.answers hkeeps hmiddle) hrest hstill
  exact hflush.2 socket calls htrace hquiet hanswers hopen

theorem handleWrite_quiet (sends : ℕ → SysResult)
    (htrace : (session.handleWrite sends).trace = session.trace ++ calls) (hquiet : socket.Quiet)
    (hanswers : Socket.answers calls socket = some socket')
    (hopen : (session.handleWrite sends).server.closed = false) : socket'.Quiet := by
  unfold handleWrite at htrace hopen
  split at hopen
  · rename_i hclosed
    exact absurd hclosed (by simp [hopen])
  · rename_i hstill
    rw [if_neg hstill] at htrace
    exact tryFlush_quiet sends htrace hquiet hanswers hopen

/-- After `EAGAIN` the socket is empty, and nothing has been reported meanwhile. -/
theorem recvIntoBuffer_quiet (recvs : List RecvResult)
    (htrace : (session.recvIntoBuffer recvs).trace = session.trace ++ calls)
    (hpending : socket.pending = false) (hanswers : Socket.answers calls socket = some socket')
    (hopen : (session.recvIntoBuffer recvs).server.closed = false) : socket'.Quiet := by
  obtain ⟨front, hfront⟩ := recvIntoBuffer_of_open recvs hopen
  obtain ⟨inputs, hinputs, hkeeps⟩ := (recvIntoBuffer_extends session recvs).1
  obtain rfl := List.append_cancel_left (hinputs.symm.trans hfront)
  obtain rfl := List.append_cancel_left (htrace.symm.trans hfront)
  have hstill := Socket.pending_answers (fun action hmem ↦ (hkeeps action hmem).keepsInterest) hanswers
  obtain ⟨middle, hmiddle, hlast⟩ := Socket.answers_append_some hanswers
  have hdrained := Socket.answers_singleton hlast
  unfold Socket.answer at hdrained
  dsimp only at hdrained
  split at hdrained
  · exact absurd hdrained (by simp)
  · rename_i hempty
    obtain rfl := Option.some.inj hdrained
    have hboth : middle.unread = [] ∧ middle.ended = false := by simpa using hempty
    exact ⟨hstill.trans hpending, hboth.1, hboth.2⟩

theorem handleRead_quiet (recvs : List RecvResult) (envs : ℕ → Env) (sends : ℕ → SysResult)
    (htrace : (session.handleRead recvs envs sends).trace = session.trace ++ calls)
    (hpending : socket.pending = false) (hanswers : Socket.answers calls socket = some socket')
    (hopen : (session.handleRead recvs envs sends).server.closed = false) : socket'.Quiet := by
  obtain ⟨hreceived, hparts⟩ := handleRead_of_open hopen
  rw [hparts] at htrace hopen
  obtain ⟨inputs, hinputs, -⟩ := (recvIntoBuffer_extends session recvs).1
  obtain ⟨requests, hrequests, hrequestCalls⟩ :=
    (processRequests_processed envs (session.recvIntoBuffer recvs)).calls
  obtain ⟨outputs, houtputs, -⟩ :=
    tryFlush_keepsInput sends ((session.recvIntoBuffer recvs).processRequests envs)
  obtain rfl : calls = inputs ++ requests ++ outputs := by
    rw [houtputs, hrequests, hinputs] at htrace
    simpa using htrace.symm
  obtain ⟨processed, hbefore, hflush⟩ := Socket.answers_append_some hanswers
  obtain ⟨received, hreceive, hprocess⟩ := Socket.answers_append_some hbefore
  have hquiet := recvIntoBuffer_quiet recvs hinputs hpending hreceive hreceived
  apply tryFlush_quiet sends houtputs _ hflush hopen
  exact hquiet.answers (fun action hmem ↦ (hrequestCalls action hmem).keepsInterest) hprocess

/-- What `epoll_wait` reports is dealt with before it is asked again. -/
theorem handlers_quiet {readiness : Readiness} (hevents : readiness.events = socket.report)
    (hinterest : socket.interest.epollin = true)
    (htrace : (EventLoop.handlers readiness session).trace = session.trace ++ calls)
    (hanswers : Socket.answers calls { socket with pending := false } = some socket')
    (hopen : (EventLoop.handlers readiness session).server.closed = false) : socket'.Quiet := by
  unfold EventLoop.handlers at htrace hopen
  dsimp only at htrace hopen
  by_cases hin : readiness.events.epollin = true ∨ readiness.events.epollrdhup = true
  · rw [if_pos hin] at htrace hopen
    by_cases hout : readiness.events.epollout = true
    · rw [if_pos hout] at htrace hopen
      have hstill :
          (session.handleRead readiness.recvs readiness.envs readiness.sends).server.closed = false := by
        by_contra hclosed
        rw [handleWrite_of_closed (by simpa using hclosed)] at hopen
        exact hclosed hopen
      obtain ⟨first, hfirst⟩ :=
        trace_prefix_step session (.read readiness.recvs readiness.envs readiness.sends)
      change session.trace ++ first =
        (session.handleRead readiness.recvs readiness.envs readiness.sends).trace at hfirst
      obtain ⟨second, hsecond⟩ := trace_prefix_step
        (session.handleRead readiness.recvs readiness.envs readiness.sends) (.write readiness.writeSends)
      obtain rfl : calls = first ++ second := by
        rw [← hfirst, List.append_assoc] at hsecond
        exact (List.append_cancel_left (hsecond.trans htrace)).symm
      obtain ⟨middle, hmiddle, hwrite⟩ := Socket.answers_append_some hanswers
      have hquiet := handleRead_quiet _ _ _ hfirst.symm rfl hmiddle hstill
      exact handleWrite_quiet _ hsecond.symm hquiet hwrite hopen
    · rw [if_neg hout] at htrace hopen
      exact handleRead_quiet _ _ _ htrace rfl hanswers hopen
  · rw [if_neg hin] at htrace hopen
    have hquiet : Socket.Quiet { socket with pending := false } := by
      rw [hevents] at hin
      have hempty : socket.unread = [] ∧ socket.ended = false := by
        simpa [Socket.report, hinterest] using (not_or.mp hin).1
      exact ⟨rfl, hempty.1, hempty.2⟩
    by_cases hout : readiness.events.epollout = true
    · rw [if_pos hout] at htrace hopen
      exact handleWrite_quiet _ htrace hquiet hanswers hopen
    · rw [if_neg hout] at htrace
      obtain rfl : calls = [] := by simpa using htrace
      exact hquiet.answers (by simp) hanswers

end Session

/-! ## A report can be dealt with -/

namespace Socket

variable {socket : Socket} {session session' session'' : Session}

/-- Not a call that asks for input. -/
def MovesOutput (action : Action) : Prop := ∀ result, action ≠ .recv result

/-- What `recv` can return while the network does nothing: the unread bytes, in any pieces, and then the
end of the stream if it has come. -/
structure Recvs (socket : Socket) (recvs : List RecvResult) : Prop where
  pieces : ∃ pieces : List Bytes, (∀ piece ∈ pieces, piece ≠ []) ∧ pieces.flatten = socket.unread ∧
    recvs = pieces.map .received ++ if socket.ended then [.received []] else []

/-- The calls that lead from one session to the other can be answered. -/
def CanAnswer (socket : Socket) (session session' : Session) : Prop :=
  ∃ calls socket', session'.trace = session.trace ++ calls ∧ answers calls socket = some socket'

theorem exists_answers {calls : List Action} (hcalls : ∀ action ∈ calls, MovesOutput action)
    (socket : Socket) : ∃ socket', answers calls socket = some socket' := by
  induction calls generalizing socket with
  | nil => exact ⟨socket, rfl⟩
  | cons action calls ih =>
    obtain ⟨haction, hcalls⟩ := List.forall_mem_cons.mp hcalls
    obtain ⟨next, hanswer⟩ : ∃ next, socket.answer action = some next := by
      cases action with
      | recv result => exact absurd rfl (haction result)
      | _ => exact ⟨_, rfl⟩
    rw [answers_cons, hanswer]
    exact ih hcalls next

theorem canAnswer_of_extends (h : Session.Extends MovesOutput session session') (socket : Socket) :
    socket.CanAnswer session session' := by
  obtain ⟨calls, htrace, hcalls⟩ := h
  obtain ⟨socket', hanswers⟩ := exists_answers hcalls socket
  exact ⟨calls, socket', htrace, hanswers⟩

theorem CanAnswer.trans (h : socket.CanAnswer session session')
    (h' : ∀ socket : Socket, socket.CanAnswer session' session'') : socket.CanAnswer session session'' := by
  obtain ⟨first, middle, htrace, hfirst⟩ := h
  obtain ⟨second, socket', htrace', hsecond⟩ := h' middle
  refine ⟨first ++ second, socket', ?_, ?_⟩
  · rw [htrace', htrace, List.append_assoc]
  · rw [answers_append, hfirst]
    exact hsecond

theorem canAnswer_recv {recvs : List RecvResult} (h : socket.Recvs recvs) (session : Session) :
    socket.CanAnswer session (session.recvIntoBuffer recvs) := by
  obtain ⟨pieces, hpieces, hunread, rfl⟩ := h.pieces
  clear h
  induction pieces generalizing socket session with
  | nil =>
    have hempty : socket.unread = [] := hunread.symm
    cases hended : socket.ended with
    | false =>
      refine ⟨[.recv (.failed eagain)], socket, rfl, ?_⟩
      simp [answers_cons, answer, hempty, hended]
    | true =>
      refine ⟨[.recv (.received []), .closeConnection], socket, ?_, ?_⟩
      · simp [Session.recvIntoBuffer]
      · simp [answers_cons, answer, hempty, hended]
  | cons piece pieces ih =>
    obtain ⟨hpiece, hpieces⟩ := List.forall_mem_cons.mp hpieces
    have hanswer : socket.answer (.recv (.received piece)) =
        some { socket with unread := pieces.flatten } := by
      simp [answer, hpiece, ← hunread]
    rw [List.map_cons, List.cons_append]
    unfold Session.recvIntoBuffer
    dsimp only
    rw [if_neg hpiece]
    split
    · refine ⟨[.recv (.received piece),
        .log .warning (lit "输入缓冲超限, 关闭连接 fd: " ++ session.fdText), .closeConnection],
        { socket with unread := pieces.flatten }, ?_, ?_⟩
      · simp [Session.fdText]
      · rw [answers_cons, hanswer]
        rfl
    · have hlater : CanAnswer { socket with unread := pieces.flatten } _ _ :=
        ih ((session.emit (.recv (.received piece))).setServer
          { session.server with inBuffer := session.server.inBuffer ++ piece }) hpieces rfl
      obtain ⟨calls, socket', htrace, hanswers⟩ := hlater
      refine ⟨.recv (.received piece) :: calls, socket', ?_, ?_⟩
      · refine htrace.trans ?_
        simp
      · rw [answers_cons, hanswer]
        exact hanswers

theorem extends_movesOutput_write (session : Session) (sends : ℕ → SysResult) :
    Session.Extends MovesOutput session (session.handleWrite sends) := by
  unfold Session.handleWrite
  split
  · exact Session.Extends.refl session
  · apply (Session.tryFlush_flushed sends session).calls.mono
    rintro action hflush result rfl
    exact hflush

theorem canAnswer_read {recvs : List RecvResult} (h : socket.Recvs recvs) (session : Session)
    (envs : ℕ → Env) (sends : ℕ → SysResult) :
    socket.CanAnswer session (session.handleRead recvs envs sends) := by
  have hprocess : Session.Extends MovesOutput (session.recvIntoBuffer recvs)
      ((session.recvIntoBuffer recvs).processRequests envs) := by
    apply (Session.processRequests_processed envs _).calls.mono
    rintro action hrequest result rfl
    exact hrequest
  have hflush := extends_movesOutput_write
    ((session.recvIntoBuffer recvs).processRequests envs) sends
  unfold Session.handleWrite at hflush
  unfold Session.handleRead
  dsimp only
  split
  · exact canAnswer_of_extends (Session.Extends.refl session) socket
  · split
    · exact canAnswer_recv h session
    · exact (canAnswer_recv h session).trans (canAnswer_of_extends (hprocess.trans hflush))

theorem canAnswer_handlers {readiness : Readiness} (h : socket.Recvs readiness.recvs)
    (session : Session) :
    socket.CanAnswer session (EventLoop.handlers readiness session) := by
  have hread : socket.CanAnswer session
      (if readiness.events.epollin ∨ readiness.events.epollrdhup then
        session.handleRead readiness.recvs readiness.envs readiness.sends else session) := by
    split
    · exact canAnswer_read h session readiness.envs readiness.sends
    · exact canAnswer_of_extends (Session.Extends.refl session) socket
  unfold EventLoop.handlers
  dsimp only
  split
  · exact hread.trans (canAnswer_of_extends (extends_movesOutput_write _ readiness.writeSends))
  · exact hread

end Socket

namespace Endpoint

/-- As long as the network does nothing, one report is enough. Whatever the kernel answers, afterwards the
connection is closed or there is nothing to report; and the kernel has answers, whatever the handlers
meet, into whatever pieces `recv` cuts the input and however much `send` and `sendfile` take. -/
theorem report_settled {fd : ℕ} {clientIp : Bytes} {services : Services} {endpoint : Endpoint}
    (h : Reachable fd clientIp services endpoint) :
    (∀ (readiness : Readiness) (calls : List Action) (socket' : Socket),
      readiness.events = endpoint.socket.report →
      (EventLoop.handlers readiness endpoint.session).trace = endpoint.session.trace ++ calls →
      Socket.answers calls { endpoint.socket with pending := false } = some socket' →
      (EventLoop.handlers readiness endpoint.session).server.closed = true ∨ socket'.Quiet) ∧
    ∀ (readiness : Readiness), endpoint.socket.Recvs readiness.recvs →
      ∃ calls socket',
        (EventLoop.handlers readiness endpoint.session).trace = endpoint.session.trace ++ calls ∧
        Socket.answers calls { endpoint.socket with pending := false } = some socket' := by
  constructor
  · intro readiness calls socket' hevents htrace hanswers
    cases hopen : (EventLoop.handlers readiness endpoint.session).server.closed with
    | true => exact .inl rfl
    | false =>
      have hstill : endpoint.session.server.closed = false := by
        by_contra hclosed
        rw [handlers_of_closed readiness (by simpa using hclosed)] at hopen
        exact hclosed hopen
      have hinterest := ((invariant_of_reachable h).watched hstill).input.1
      exact .inr (Session.handlers_quiet hevents hinterest htrace hanswers hopen)
  · intro readiness hrecvs
    have hcleared : Socket.Recvs { endpoint.socket with pending := false } readiness.recvs :=
      ⟨hrecvs.pieces⟩
    exact Socket.canAnswer_handlers hcleared endpoint.session

theorem report_settled_arrived :
    (∀ (readiness : Readiness) (calls : List Action) (socket' : Socket),
      readiness.events = arrivedEndpoint.socket.report →
      (EventLoop.handlers readiness arrivedEndpoint.session).trace =
        arrivedEndpoint.session.trace ++ calls →
      Socket.answers calls { arrivedEndpoint.socket with pending := false } = some socket' →
      (EventLoop.handlers readiness arrivedEndpoint.session).server.closed = true ∨ socket'.Quiet) ∧
    ∀ (readiness : Readiness), arrivedEndpoint.socket.Recvs readiness.recvs →
      ∃ calls socket',
        (EventLoop.handlers readiness arrivedEndpoint.session).trace =
          arrivedEndpoint.session.trace ++ calls ∧
        Socket.answers calls { arrivedEndpoint.socket with pending := false } = some socket' :=
  report_settled reachable_arrived

end Endpoint

end WebServer
