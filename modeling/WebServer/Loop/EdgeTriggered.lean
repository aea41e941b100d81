import WebServer.Connection.Exchanges
import WebServer.Connection.HalfClose
import WebServer.Loop.Projection
import WebServer.Loop.Socket
import Mathlib.Logic.Relation

/-!
# No wakeup is lost

Every connection is registered with `EPOLLET`: `epoll_wait` reports it once after a change of its socket
and says nothing again until the next change. A connection that stops before the socket is empty, or
before it is full, would wait for ever. A `Step` of an `Endpoint` puts a connection beside its socket:
bytes and room arrive at any moment, also between two calls of one handler, and the calls of a handler
are answered out of the socket. At rest everything that was sent has been read and answered.
-/

namespace WebServer

open Bytes HttpServer OutSegment Execution

/-! ## What a handler leaves -/

namespace Session

variable {session : Session} {socket socket' : Socket} {calls : List Action}

/-- A receive loop that keeps the connection open has met `EAGAIN`. -/
theorem recvIntoBuffer_of_open (recvs : List RecvResult)
    (hopen : (session.recvIntoBuffer recvs).server.closed = false) :
    ∃ front, (session.recvIntoBuffer recvs).trace =
      session.trace ++ (front ++ [.recv (.failed eagain)]) := by
  induction recvs generalizing session with
  | nil => exact ⟨[], rfl⟩
  | cons result recvs ih =>
    cases result with
    | received data =>
      unfold Session.recvIntoBuffer at hopen ⊢
      dsimp only at hopen ⊢
      split at hopen
      · exact absurd hopen (by simp)
      · rename_i hdata
        rw [if_neg hdata]
        split at hopen
        · exact absurd hopen (by simp)
        · rename_i hmax
          rw [if_neg hmax]
          obtain ⟨front, htrace⟩ := ih hopen
          refine ⟨.recv (.received data) :: front, ?_⟩
          rw [htrace]
          simp
    | failed errno =>
      unfold Session.recvIntoBuffer at hopen ⊢
      dsimp only at hopen ⊢
      split at hopen
      · rename_i herrno
        rw [if_pos herrno, herrno]
        exact ⟨[], rfl⟩
      · exact absurd hopen (by simp)

theorem IsInputCall.keepsInput {action : Action} (h : IsInputCall action) :
    Socket.KeepsInput action := by
  rintro events rfl
  exact absurd h id

theorem IsRequestCall.keepsInput {action : Action} (h : IsRequestCall action) :
    Socket.KeepsInput action := by
  rintro events rfl
  exact absurd h id

theorem IsIdleCall.keepsInput {result : SysResult} {action : Action} (h : IsIdleCall result action) :
    Socket.KeepsInput action := by
  rintro events rfl
  exact absurd rfl (h.keepsInterest events)

/-- The masks a connection asks for all contain `EPOLLIN`. -/
theorem keepsInput_interest (writable : Bool) :
    Socket.KeepsInput (.updateEvents (interest writable)) := by
  intro events hevents
  rw [← Action.updateEvents.inj hevents]
  rfl

theorem FlushStep.keepsInput {next : Session} (h : FlushStep session next) :
    Extends Socket.KeepsInput session next := by
  cases h with
  | popBytes => exact .of_trace_eq rfl
  | send | popFile | sendfile => exact (Extends.refl session).snoc rfl (by simp [Socket.KeepsInput])

theorem unregisterWrite_keepsInput (session : Session) :
    Extends Socket.KeepsInput session session.unregisterWrite := by
  unfold unregisterWrite
  split
  · exact (Extends.refl session).snoc rfl (keepsInput_interest false)
  · exact Extends.refl session

theorem registerWrite_keepsInput (session : Session) :
    Extends Socket.KeepsInput session session.registerWrite := by
  unfold registerWrite
  split
  · exact Extends.refl session
  · exact (Extends.refl session).snoc rfl (keepsInput_interest true)

theorem FlushEnd.keepsInput {session' : Session} (h : FlushEnd session session') :
    Extends Socket.KeepsInput session session' := by
  cases h with
  | drained hqueue =>
    rw [finishFlush_eq]
    split
    · exact (unregisterWrite_keepsInput session).snoc rfl (by simp [Socket.KeepsInput])
    · exact unregisterWrite_keepsInput session
  | blocked result action hqueue hcall hblock =>
    have hemit : Extends Socket.KeepsInput session (session.emit action) :=
      (Extends.refl session).snoc rfl hcall.keepsInput
    exact hemit.trans (registerWrite_keepsInput _)
  | failed result action message hqueue hcall hret hblock =>
    have hemit : Extends Socket.KeepsInput session (session.emit action) :=
      (Extends.refl session).snoc rfl hcall.keepsInput
    have hlog : Extends Socket.KeepsInput session ((session.emit action).log .warning message) :=
      hemit.snoc rfl (by simp [Socket.KeepsInput])
    exact hlog.snoc rfl (by simp [Socket.KeepsInput])

theorem tryFlush_keepsInput (results : ℕ → SysResult) (session : Session) :
    Extends Socket.KeepsInput session (session.tryFlush results) := by
  apply tryFlush_induct (motive := fun s s' ↦ Extends Socket.KeepsInput s s')
  · intro s s' hend
    exact hend.keepsInput
  · intro s next s' hstep ih
    exact hstep.keepsInput.trans ih

/-- A call that would block tells the kernel to report room, unless it was asked before. -/
theorem outputKnown_of_blocked {result : SysResult} {action : Action} (hcall : IsIdleCall result action)
    (hblock : result.wouldBlock = true) (hknown : session.InterestKnown)
    (htracks : socket.Tracks session.trace)
    (htrace : (session.emit action).registerWrite.trace = session.trace ++ calls)
    (hmeets : Socket.Meets socket calls socket') : socket'.OutputKnown := by
  have hmove : ∀ (socket : Socket) (move : SocketMove), socket.OutputKnown →
      (socket.move move).OutputKnown := fun _ move hsocket ↦ hsocket.move move
  have hanswers {before next : Socket} (hanswer : before.answer action = some next) :
      next.blocked = true ∧ next.interest = before.interest := by
    obtain rfl | ⟨fileFd, rfl⟩ := hcall
    · obtain rfl := Option.some.inj hanswer
      simp [Socket.block, hblock]
    · obtain rfl := Option.some.inj hanswer
      simp [Socket.block, hblock]
  have htracked {before : Socket} (hbefore : Socket.Meets socket [] before) :
      before.interest = interestMask session.trace := by
    have htracks' := hbefore.tracks htracks
    rw [List.append_nil] at htracks'
    exact htracks'.interest
  unfold registerWrite at htrace
  split at htrace
  · -- epoll waits for room already, and the network may have made some since
    rename_i hregistered
    obtain rfl : calls = [action] := (List.append_cancel_left htrace).symm
    obtain ⟨before, next, hbefore, hanswer, hlater⟩ := hmeets.head
    obtain ⟨hblocked, hinterest⟩ := hanswers hanswer
    apply hlater.keeps hmove (by simp)
    refine ⟨?_, .inr hblocked⟩
    rw [hinterest, htracked hbefore]
    exact hknown.trans hregistered
  · -- the new mask makes the kernel look again, so room made before it is reported
    obtain rfl : calls = [action, .updateEvents (interest true)] := by
      simp only [emit_trace, setServer_trace, List.append_assoc] at htrace
      exact (List.append_cancel_left htrace).symm
    obtain ⟨before, next, hbefore, hanswer, hlater⟩ := hmeets.head
    obtain ⟨middle, last, hmiddle, hupdate, hrest⟩ := hlater.head
    apply hrest.keeps hmove (by simp)
    obtain rfl := Option.some.inj hupdate
    refine ⟨rfl, ?_⟩
    cases hblocked : middle.blocked with
    | true => exact .inr hblocked
    | false => exact .inl (by simp [Socket.modify, Socket.report, interest, hblocked])

/-- A flush that keeps the connection open and leaves output behind is woken up when there is room. -/
theorem tryFlush_outputKnown (results : ℕ → SysResult) (hknown : session.InterestKnown)
    (htracks : socket.Tracks session.trace)
    (htrace : (session.tryFlush results).trace = session.trace ++ calls)
    (hmeets : Socket.Meets socket calls socket')
    (hopen : (session.tryFlush results).server.closed = false)
    (hqueue : (session.tryFlush results).server.outQueue ≠ []) : socket'.OutputKnown := by
  have hflush : session.trace <+: (session.tryFlush results).trace ∧
      ∀ socket calls, session.InterestKnown → socket.Tracks session.trace →
        (session.tryFlush results).trace = session.trace ++ calls → Socket.Meets socket calls socket' →
        (session.tryFlush results).server.closed = false →
        (session.tryFlush results).server.outQueue ≠ [] → socket'.OutputKnown := by
    apply tryFlush_induct (motive := fun s s' ↦ s.trace <+: s'.trace ∧
      ∀ socket calls, s.InterestKnown → socket.Tracks s.trace → s'.trace = s.trace ++ calls →
        Socket.Meets socket calls socket' → s'.server.closed = false → s'.server.outQueue ≠ [] →
        socket'.OutputKnown)
    · intro s s' hend
      refine ⟨?_, ?_⟩
      · obtain ⟨calls, hcalls, -⟩ := hend.keepsInput
        exact ⟨calls, hcalls.symm⟩
      · intro socket calls hs htracked hcalls hmet hstill hleft
        cases hend with
        | drained hempty =>
          rw [finishFlush_server] at hleft
          exact absurd hempty hleft
        | blocked result action _ hcall hblock =>
          exact outputKnown_of_blocked hcall hblock hs htracked hcalls hmet
        | failed => exact absurd hstill (by simp)
    · intro s next s' hstep ih
      obtain ⟨⟨later, hlater⟩, ih⟩ := ih
      obtain ⟨first, hfirst, -⟩ := hstep.keepsInput
      refine ⟨⟨first ++ later, by rw [← hlater, hfirst, List.append_assoc]⟩, ?_⟩
      intro socket calls hs htracked hcalls hmet hstill hleft
      obtain rfl : calls = first ++ later := by
        rw [← hlater, hfirst, List.append_assoc] at hcalls
        exact (List.append_cancel_left hcalls).symm
      obtain ⟨middle, hmiddle, hrest⟩ := hmet.split
      apply ih middle later (hs.flushStep hstep) _ hlater.symm hrest hstill hleft
      rw [hfirst]
      exact hmiddle.tracks htracked
  exact hflush.2 socket calls hknown htracks htrace hmeets hopen hqueue

/-- What an event is to leave of an open connection and its socket. -/
structure Watched (session : Session) (socket : Socket) : Prop where
  input : socket.InputKnown
  output : session.server.outQueue ≠ [] → socket.OutputKnown

theorem handleWrite_watched (sends : ℕ → SysResult) (hknown : session.InterestKnown)
    (htracks : socket.Tracks session.trace) (hinput : socket.InputKnown)
    (htrace : (session.handleWrite sends).trace = session.trace ++ calls)
    (hmeets : Socket.Meets socket calls socket')
    (hopen : (session.handleWrite sends).server.closed = false) :
    (session.handleWrite sends).Watched socket' := by
  unfold handleWrite at htrace hopen ⊢
  split at hopen
  · rename_i hclosed
    exact absurd hclosed (by simp [hopen])
  · rename_i hstill
    rw [if_neg hstill] at htrace ⊢
    refine ⟨?_, tryFlush_outputKnown sends hknown htracks htrace hmeets hopen⟩
    obtain ⟨calls', htrace', hkeeps⟩ := tryFlush_keepsInput sends session
    obtain rfl := List.append_cancel_left (htrace.symm.trans htrace')
    exact hmeets.inputKnown hkeeps hinput

/-- A read event that keeps the connection open goes through all its parts. -/
theorem handleRead_of_open {recvs : List RecvResult} {envs : ℕ → Env} {sends : ℕ → SysResult}
    (hopen : (session.handleRead recvs envs sends).server.closed = false) :
    (session.recvIntoBuffer recvs).server.closed = false ∧
      session.handleRead recvs envs sends =
        ((session.recvIntoBuffer recvs).processRequests envs).tryFlush sends := by
  unfold handleRead at hopen ⊢
  dsimp only at hopen ⊢
  split at hopen
  · rename_i hclosed
    exact absurd hclosed (by simp [hopen])
  rename_i hstill
  rw [if_neg hstill]
  split at hopen
  · rename_i hclosed
    exact absurd hclosed (by simp [hopen])
  rename_i hreceived
  rw [if_neg hreceived]
  split at hopen
  · rename_i hclosed
    exact absurd hclosed (by simp [hopen])
  rename_i hprocessed
  rw [if_neg hprocessed]
  exact ⟨by simpa using hreceived, rfl⟩

theorem handleRead_watched (recvs : List RecvResult) (envs : ℕ → Env) (sends : ℕ → SysResult)
    (hknown : session.InterestKnown) (htracks : socket.Tracks session.trace)
    (hinterest : socket.interest.epollin = true)
    (htrace : (session.handleRead recvs envs sends).trace = session.trace ++ calls)
    (hmeets : Socket.Meets socket calls socket')
    (hopen : (session.handleRead recvs envs sends).server.closed = false) :
    (session.handleRead recvs envs sends).Watched socket' := by
  obtain ⟨hreceived, hparts⟩ := handleRead_of_open hopen
  rw [hparts] at htrace hopen ⊢
  obtain ⟨front, hfront⟩ := recvIntoBuffer_of_open recvs hreceived
  obtain ⟨inputs, hinputs, hinputCalls⟩ := (recvIntoBuffer_extends session recvs).1
  obtain rfl := List.append_cancel_left (hinputs.symm.trans hfront)
  obtain ⟨requests, hrequests, hrequestCalls⟩ :=
    (processRequests_processed envs (session.recvIntoBuffer recvs)).calls
  obtain ⟨outputs, houtputs, houtputCalls⟩ :=
    tryFlush_keepsInput sends ((session.recvIntoBuffer recvs).processRequests envs)
  obtain rfl : calls = front ++ [.recv (.failed eagain)] ++ requests ++ outputs := by
    rw [houtputs, hrequests, hinputs] at htrace
    simpa using htrace.symm
  obtain ⟨processed, hbefore, hflush⟩ := hmeets.split
  obtain ⟨received, hreceive, hprocess⟩ := hbefore.split
  obtain ⟨waiting, hwaiting, hdrained⟩ := hreceive.split
  have hknownInput : processed.InputKnown := by
    apply hprocess.inputKnown fun action hmem ↦ (hrequestCalls action hmem).keepsInput
    apply hdrained.inputKnown_of_drained
    apply hwaiting.epollin _ hinterest
    intro action hmem
    exact (hinputCalls action (List.mem_append_left _ hmem)).keepsInput
  refine ⟨hflush.inputKnown houtputCalls hknownInput, ?_⟩
  have htracked := hbefore.tracks htracks
  rw [← List.append_assoc, ← List.append_assoc, List.append_assoc session.trace, ← hinputs,
    ← hrequests] at htracked
  exact tryFlush_outputKnown sends ((hknown.recvIntoBuffer recvs).processRequests envs) htracked houtputs
    hflush hopen

/-- The handlers of what `epoll_wait` reports leave nothing behind, also if it reports nothing. -/
theorem handlers_watched {readiness : Readiness} (hevents : readiness.events = socket.report)
    (hattentive : session.Attentive) (htracks : socket.Tracks session.trace)
    (hinterest : socket.interest.epollin = true)
    (htrace : (EventLoop.handlers readiness session).trace = session.trace ++ calls)
    (hmeets : Socket.Meets { socket with pending := false } calls socket')
    (hopen : (EventLoop.handlers readiness session).server.closed = false) :
    (EventLoop.handlers readiness session).Watched socket' := by
  have hstart : Socket.Tracks { socket with pending := false } session.trace := ⟨htracks.1, htracks.2⟩
  unfold EventLoop.handlers at htrace hopen ⊢
  dsimp only at htrace hopen ⊢
  by_cases hin : readiness.events.epollin = true ∨ readiness.events.epollrdhup = true
  · rw [if_pos hin] at htrace hopen ⊢
    obtain ⟨first, hfirst⟩ :=
      trace_prefix_step session (.read readiness.recvs readiness.envs readiness.sends)
    have hread : (session.handleRead readiness.recvs readiness.envs readiness.sends).Attentive :=
      hattentive.step (.read readiness.recvs readiness.envs readiness.sends)
    change session.trace ++ first =
      (session.handleRead readiness.recvs readiness.envs readiness.sends).trace at hfirst
    by_cases hout : readiness.events.epollout = true
    · rw [if_pos hout] at htrace hopen ⊢
      have hstill :
          (session.handleRead readiness.recvs readiness.envs readiness.sends).server.closed = false := by
        by_contra hclosed
        rw [handleWrite_of_closed (by simpa using hclosed)] at hopen
        exact hclosed hopen
      obtain ⟨second, hsecond⟩ := trace_prefix_step
        (session.handleRead readiness.recvs readiness.envs readiness.sends) (.write readiness.writeSends)
      obtain rfl : calls = first ++ second := by
        rw [← hfirst, List.append_assoc] at hsecond
        exact (List.append_cancel_left (hsecond.trans htrace)).symm
      obtain ⟨middle, hmiddle, hwrite⟩ := hmeets.split
      have hwatched := handleRead_watched readiness.recvs readiness.envs readiness.sends hattentive.1
        hstart hinterest hfirst.symm hmiddle hstill
      apply handleWrite_watched readiness.writeSends hread.1 _ hwatched.input hsecond.symm hwrite hopen
      rw [← hfirst]
      exact hmiddle.tracks hstart
    · rw [if_neg hout] at htrace hopen ⊢
      exact handleRead_watched readiness.recvs readiness.envs readiness.sends hattentive.1 hstart hinterest
        htrace hmeets hopen
  · rw [if_neg hin] at htrace hopen ⊢
    have hinput : Socket.InputKnown { socket with pending := false } := by
      refine ⟨hinterest, .inr ?_⟩
      rw [hevents] at hin
      simpa [Socket.report, hinterest] using (not_or.mp hin).1
    by_cases hout : readiness.events.epollout = true
    · rw [if_pos hout] at htrace hopen ⊢
      exact handleWrite_watched readiness.writeSends hattentive.1 hstart hinput htrace hmeets hopen
    · -- nothing is reported, so the network has made no room either
      rw [if_neg hout] at htrace hopen ⊢
      obtain rfl : calls = [] := by simpa using htrace
      refine ⟨hmeets.inputKnown (by simp) hinput, ?_⟩
      intro hqueue
      have hasked : socket.interest.epollout = true := by
        rw [htracks.interest, hattentive.1]
        exact (hattentive.2 hopen).registered_iff.mpr hqueue
      apply hmeets.keeps (fun _ move hsocket ↦ hsocket.move move) (by simp)
      refine ⟨hasked, .inr ?_⟩
      rw [hevents] at hout
      simpa [Socket.report, hasked] using hout

end Session

/-! ## A connection and its socket -/

structure Endpoint where
  session : Session
  socket : Socket

namespace Endpoint

def new (fd : ℕ) (clientIp : Bytes) (services : Services) : Endpoint :=
  ⟨Session.new fd clientIp services, .new⟩

/-- The network moves; `epoll_wait` reports the socket and its handlers run, while the network goes on; or
the loop closes the connection, which it does after an error of the socket, at a timeout and at its
end. -/
inductive Step : Endpoint → Endpoint → Prop where
  | network (endpoint : Endpoint) (move : SocketMove) :
      Step endpoint { endpoint with socket := endpoint.socket.move move }
  | wait {session : Session} {socket socket' : Socket} (readiness : Readiness) {calls : List Action}
      (hpending : socket.pending = true) (hevents : readiness.events = socket.report)
      (htrace : (EventLoop.handlers readiness session).trace = session.trace ++ calls)
      (hmeets : Socket.Meets { socket with pending := false } calls socket') :
      Step ⟨session, socket⟩ ⟨EventLoop.handlers readiness session, socket'⟩
  | close (endpoint : Endpoint) :
      Step endpoint { endpoint with session := endpoint.session.step .close }

def Reachable (fd : ℕ) (clientIp : Bytes) (services : Services) : Endpoint → Prop :=
  Relation.ReflTransGen Step (new fd clientIp services)

/-- The complete requests of the input are dispatched while no close is decided, and none is refused. -/
structure Caught (session : Session) : Prop where
  starved : session.server.closed = false → session.server.closeAfterFlush = false →
    HttpRequest.parse session.server.inBuffer = .needMore
  unrefused : session.server.closeAfterFlush = false → rejected session.trace = []

theorem Caught.of_same {session session' : Session} (h : Caught session)
    (hclosed : session'.server.closed = false → session.server.closed = false)
    (hbuffer : session'.server.inBuffer = session.server.inBuffer)
    (hdecided : session'.server.closeAfterFlush = session.server.closeAfterFlush)
    (hrejected : rejected session'.trace = rejected session.trace) : Caught session' := by
  constructor
  · intro hopen hundecided
    rw [hbuffer]
    exact h.starved (hclosed hopen) (hdecided.symm.trans hundecided)
  · intro hundecided
    rw [hrejected]
    exact h.unrefused (hdecided.symm.trans hundecided)

theorem Caught.tryFlush {session : Session} (h : Caught session) (hopen : session.server.closed = false)
    (results : ℕ → SysResult) : Caught (session.tryFlush results) := by
  obtain ⟨-, hrejected, -⟩ := Session.tryFlush_input results session
  obtain ⟨queue, registered, closed, hserver⟩ := (Session.tryFlush_flushed results session).server
  apply h.of_same (fun _ ↦ hopen) _ _ hrejected
  · rw [hserver]
  · rw [hserver]

theorem Caught.processRequests {session : Session} (h : rejected session.trace = [] ∨
    session.server.closeAfterFlush = true) (envs : ℕ → Env) : Caught (session.processRequests envs) := by
  obtain ⟨requests, rest, -, hend⟩ := Session.processRequests_reads envs session
  cases hend with
  | starved hparse hbuffer hdecided _ hrejected =>
    constructor
    · intro _ _
      rw [hbuffer]
      exact hparse
    · intro hundecided
      rw [hrejected]
      obtain hnone | hclosing := h
      · exact hnone
      · exact absurd (hundecided.symm.trans (hdecided.trans hclosing)) (by simp)
  | refused code hparse hdecided =>
    exact ⟨fun _ hundecided ↦ absurd (hdecided.symm.trans hundecided) (by simp),
      fun hundecided ↦ absurd (hdecided.symm.trans hundecided) (by simp)⟩
  | last request consumed hparse hkeep hdecided =>
    exact ⟨fun _ hundecided ↦ absurd (hdecided.symm.trans hundecided) (by simp),
      fun hundecided ↦ absurd (hdecided.symm.trans hundecided) (by simp)⟩
  | full hdecided =>
    exact ⟨fun _ hundecided ↦ absurd (hdecided.symm.trans hundecided) (by simp),
      fun hundecided ↦ absurd (hdecided.symm.trans hundecided) (by simp)⟩

theorem Caught.step {session : Session} (h : Caught session) (event : Event) :
    Caught (session.step event) := by
  cases event with
  | read recvs envs sends =>
    unfold Session.step Session.handleRead
    dsimp only
    split
    · exact h
    · rename_i hopen
      have hserver := Session.recvIntoBuffer_server session recvs
      obtain ⟨-, hrejected⟩ := Session.recvIntoBuffer_input session recvs
      split
      · rename_i hclosed
        constructor
        · intro hstill
          exact absurd hclosed (by simp [hstill])
        · rw [hserver, hrejected]
          exact h.unrefused
      · have hprocessed : Caught ((session.recvIntoBuffer recvs).processRequests envs) := by
          apply Caught.processRequests
          rw [hrejected, hserver]
          cases hclosing : session.server.closeAfterFlush with
          | true => exact .inr rfl
          | false => exact .inl (h.unrefused hclosing)
        split
        · exact hprocessed
        · rename_i hstill
          exact hprocessed.tryFlush (by simpa using hstill) sends
  | write sends =>
    unfold Session.step Session.handleWrite
    dsimp only
    split
    · exact h
    · rename_i hopen
      exact h.tryFlush (by simpa using hopen) sends
  | close =>
    unfold Session.step
    dsimp only
    split
    · exact h
    · refine h.of_same (by simp) rfl rfl ?_
      rw [Session.closeConnection_trace, rejected_append]
      exact List.append_nil _

/-- What is queued is one answer for each verdict. -/
def Replies (session : Session) : Prop :=
  ∃ exchanges : List Exchange, verdicts session.trace = exchanges.map Exchange.cause ∧
    (∀ exchange ∈ exchanges, exchange.Answers session.server.clientIp) ∧
    EncodesAll (exchanges.map Exchange.message) (queued session.trace)

theorem Replies.step {session : Session} (h : Replies session) (event : Event) :
    Replies (session.step event) := by
  obtain ⟨exchanges, hverdicts, hanswers, hencodes⟩ := h
  obtain ⟨hnext, text, hqueued, htext⟩ := Session.accounts_step session event
  refine ⟨exchanges ++ session.stepExchanges event, ?_, ?_, ?_⟩
  · rw [hnext, hverdicts, List.map_append]
  · rw [Session.clientIp_step]
    intro exchange hmem
    obtain hold | hnew := List.mem_append.mp hmem
    · exact hanswers exchange hold
    · exact Session.answers_stepExchanges session event exchange hnew
  · rw [hqueued, List.map_append]
    exact hencodes.append htext

/-- What holds between the steps. -/
structure Invariant (endpoint : Endpoint) : Prop where
  attentive : endpoint.session.Attentive
  account : endpoint.session.Account
  caught : Caught endpoint.session
  replies : Replies endpoint.session
  tracks : endpoint.socket.Tracks endpoint.session.trace
  watched : endpoint.session.server.closed = false → endpoint.session.Watched endpoint.socket

theorem invariant_new (fd : ℕ) (clientIp : Bytes) (services : Services) :
    (new fd clientIp services).Invariant where
  attentive := Session.attentive_new fd clientIp services
  account := Session.account_new fd clientIp services
  caught := ⟨fun _ _ ↦ rfl, fun _ ↦ rfl⟩
  replies := ⟨[], rfl, by simp, .nil⟩
  tracks := ⟨rfl, rfl⟩
  watched _ := ⟨⟨rfl, .inr ⟨rfl, rfl⟩⟩, fun hqueue ↦ absurd rfl hqueue⟩

theorem handlers_of_closed {session : Session} (readiness : Readiness)
    (h : session.server.closed = true) : EventLoop.handlers readiness session = session := by
  simp [EventLoop.handlers, Session.handleRead, Session.handleWrite, h]

theorem Invariant.step {endpoint endpoint' : Endpoint} (h : endpoint.Invariant)
    (hstep : Step endpoint endpoint') : endpoint'.Invariant := by
  cases hstep with
  | network _ move =>
    refine ⟨h.attentive, h.account, h.caught, h.replies, h.tracks.move move, ?_⟩
    intro hopen
    exact ⟨(h.watched hopen).input.move move, fun hqueue ↦ ((h.watched hopen).output hqueue).move move⟩
  | @wait session socket socket' readiness calls hpending hevents htrace hmeets =>
    obtain ⟨hattentive, haccount, hcaught, hreplies, htracks, hwatched⟩ := h
    have hrun := EventLoop.handlers_eq_run readiness session
    refine ⟨?_, ?_, ?_, ?_, ?_, ?_⟩
    · rw [hrun]
      exact run_invariant_of_forall (fun _ event h ↦ h.step event) hattentive _
    · rw [hrun]
      exact run_invariant_of_forall (fun _ event h ↦ h.step event) haccount _
    · rw [hrun]
      exact run_invariant_of_forall (fun session event (h : Caught session) ↦ h.step event) hcaught _
    · rw [hrun]
      exact run_invariant_of_forall (fun session event (h : Replies session) ↦ h.step event) hreplies _
    · rw [htrace]
      exact hmeets.tracks ⟨htracks.sent, htracks.interest⟩
    · intro hopen
      have hstill : session.server.closed = false := by
        by_contra hclosed
        rw [handlers_of_closed readiness (by simpa using hclosed)] at hopen
        exact hclosed hopen
      exact Session.handlers_watched hevents hattentive htracks (hwatched hstill).input.1 htrace hmeets hopen
  | close =>
    refine ⟨h.attentive.step .close, h.account.step .close, h.caught.step .close,
      h.replies.step .close, ?_, ?_⟩
    · unfold Session.step
      dsimp only
      split
      · exact h.tracks
      · constructor
        · rw [Session.closeConnection_trace, received_append, h.tracks.sent]
          simp [received, Action.receivedBytes]
        · rw [Session.closeConnection_trace, Session.interestMask_append (by simp [Session.KeepsInterest]),
            h.tracks.interest]
    · unfold Session.step
      dsimp only
      split
      · exact h.watched
      · intro hopen
        exact absurd hopen (by simp)

theorem invariant_of_reachable {fd : ℕ} {clientIp : Bytes} {services : Services} {endpoint : Endpoint}
    (h : Reachable fd clientIp services endpoint) : endpoint.Invariant := by
  induction h with
  | refl => exact invariant_new fd clientIp services
  | tail _ hstep ih => exact ih.step hstep

/-- A request of one packet. -/
def askedText : Bytes := lit "GET / HTTP/1.1\r\n\r\n"

/-- The packet has arrived and is not yet reported. -/
def arrivedEndpoint : Endpoint where
  session := Session.new 7 [] ⟨⟨∅⟩, .new, .static⟩
  socket := Socket.new.move (.arrive askedText)

theorem reachable_arrived : Reachable 7 [] ⟨⟨∅⟩, .new, .static⟩ arrivedEndpoint :=
  .single (.network (new 7 [] ⟨⟨∅⟩, .new, .static⟩) (.arrive askedText))

/-- The report of the packet; every `send` gets this result. -/
def asked (result : SysResult) : Readiness where
  now := 0
  fd := 7
  events := arrivedEndpoint.socket.report
  recvs := [.received askedText]
  envs _ := ⟨id, 0, 0, fun _ ↦ none⟩
  sends _ := result
  writeSends _ := result

/-- After the report; the answer fits into the socket. -/
def askedEndpoint : Endpoint where
  session := EventLoop.handlers (asked ⟨65536, 0⟩) arrivedEndpoint.session
  socket := ⟨askedText, [], false, false, EventLoop.acceptEvents, false⟩

theorem reachable_asked : Reachable 7 [] ⟨⟨∅⟩, .new, .static⟩ askedEndpoint := by
  refine reachable_arrived.tail (.wait (asked ⟨65536, 0⟩) rfl rfl (List.nil_append _).symm ?_)
  exact .of_answers (by decide +kernel)

/-- After the report; there is no room for the answer. -/
def blockedEndpoint : Endpoint where
  session := EventLoop.handlers (asked ⟨-1, eagain⟩) arrivedEndpoint.session
  socket := ⟨askedText, [], false, true, Session.interest true, false⟩

theorem reachable_blocked : Reachable 7 [] ⟨⟨∅⟩, .new, .static⟩ blockedEndpoint := by
  refine reachable_arrived.tail (.wait (asked ⟨-1, eagain⟩) rfl rfl (List.nil_append _).symm ?_)
  exact .of_answers (by decide +kernel)

/-- An open connection that epoll has nothing to report about has read and sent what it can. -/
theorem Invariant.caught_up {endpoint : Endpoint} (h : endpoint.Invariant)
    (hopen : endpoint.session.server.closed = false) (hidle : endpoint.socket.pending = false) :
    received endpoint.session.trace = endpoint.socket.sent ∧ endpoint.socket.ended = false ∧
      (endpoint.session.server.outQueue ≠ [] →
        endpoint.socket.blocked = true ∧ endpoint.socket.interest.epollout = true) := by
  obtain ⟨hinput, houtput⟩ := h.watched hopen
  obtain ⟨hunread, hended⟩ := hinput.2.resolve_left (by simp [hidle])
  refine ⟨?_, hended, ?_⟩
  · rw [h.tracks.sent, hunread, List.append_nil]
  · intro hqueue
    exact ⟨(houtput hqueue).2.resolve_left (by simp [hidle]), (houtput hqueue).1⟩

/-- However the network moves between the calls of the handlers, an open connection that epoll has nothing
to report about has read all that was sent, has seen no end of it, and has sent its output as far as
there is room; if output is left, epoll waits for room. -/
theorem no_lost_wakeup {fd : ℕ} {clientIp : Bytes} {services : Services} {endpoint : Endpoint}
    (h : Reachable fd clientIp services endpoint) (hopen : endpoint.session.server.closed = false)
    (hidle : endpoint.socket.pending = false) :
    received endpoint.session.trace = endpoint.socket.sent ∧ endpoint.socket.ended = false ∧
      (endpoint.session.server.outQueue ≠ [] →
        endpoint.socket.blocked = true ∧ endpoint.socket.interest.epollout = true) :=
  (invariant_of_reachable h).caught_up hopen hidle

theorem no_lost_wakeup_blocked :
    blockedEndpoint.session.server.outQueue ≠ [] ∧
      received blockedEndpoint.session.trace = blockedEndpoint.socket.sent ∧
      blockedEndpoint.socket.ended = false ∧
      (blockedEndpoint.session.server.outQueue ≠ [] →
        blockedEndpoint.socket.blocked = true ∧
          blockedEndpoint.socket.interest.epollout = true) :=
  ⟨by decide +kernel, no_lost_wakeup reachable_blocked (by decide +kernel) rfl⟩

theorem verdicts_of_unrefused {trace : List Action} (h : rejected trace = []) :
    verdicts trace = (dispatched trace).map .dispatch := by
  induction trace with
  | nil => rfl
  | cons action trace ih =>
    have hsplit : rejected (action :: trace) = rejected [action] ++ rejected trace :=
      rejected_append [action] trace
    rw [hsplit, List.append_eq_nil_iff] at h
    cases action with
    | dispatch request =>
      have hcons := congrArg (Action.dispatch request :: ·) (ih h.2)
      exact hcons
    | reject errorCode => exact absurd h.1 (List.cons_ne_nil _ _)
    | _ => exact ih h.2

/-- A client whose connection is left open, with nothing to report and no call that waits for room, has
had everything answered: the requests that were dispatched are all the requests of what it sent, and what
it decodes from the bytes the kernel took is the answer to each of them, with nothing left over. -/
theorem all_answered_at_rest {fd : ℕ} {clientIp : Bytes} {services : Services} {endpoint : Endpoint}
    (h : Reachable fd clientIp services endpoint) (hopen : endpoint.session.server.closed = false)
    (hidle : endpoint.socket.pending = false) (hroom : endpoint.socket.blocked = false) :
    requestFramer.drain endpoint.socket.sent = ⟨dispatched endpoint.session.trace, none⟩ ∧
      ∃ exchanges : List Exchange,
        exchanges.map Exchange.cause = (dispatched endpoint.session.trace).map .dispatch ∧
        (∀ exchange ∈ exchanges, exchange.Answers endpoint.session.server.clientIp) ∧
        responseFramer.Reads (accepted endpoint.session.trace) (exchanges.map Exchange.message) [] ∧
        responseFramer.drain (accepted endpoint.session.trace) =
          ⟨exchanges.map Exchange.message, none⟩ := by
  have hinvariant := invariant_of_reachable h
  obtain ⟨hreceived, -, houtput⟩ := hinvariant.caught_up hopen hidle
  have hqueue : endpoint.session.server.outQueue = [] := by
    by_contra hqueue
    exact absurd (houtput hqueue).1 (by simp [hroom])
  have hundecided : endpoint.session.server.closeAfterFlush = false := by
    by_contra hclosing
    exact (hinvariant.attentive.2 hopen).closing (by simpa using hclosing) hqueue
  have hreads := hinvariant.account.reading hundecided
  have hbalanced := hinvariant.account.ledger.balanced
  unfold Session.Balanced at hbalanced
  rw [hqueue, denoteQueue_nil, List.append_nil, List.nil_append] at hbalanced
  refine ⟨?_, ?_⟩
  · rw [← hreceived]
    exact hreads.drain_of_needMore (hinvariant.caught.starved hopen hundecided)
  · obtain ⟨exchanges, hverdicts, hanswers, hencodes⟩ := hinvariant.replies
    have hanswered : responseFramer.Reads (accepted endpoint.session.trace)
        (exchanges.map Exchange.message) [] := by
      rw [hbalanced]
      exact hencodes.reads
    refine ⟨exchanges, ?_, hanswers, hanswered, hanswered.drain_of_needMore rfl⟩
    rw [← hverdicts]
    exact verdicts_of_unrefused (hinvariant.caught.unrefused hundecided)

theorem all_answered_at_rest_asked :
    requestFramer.drain askedEndpoint.socket.sent =
        ⟨dispatched askedEndpoint.session.trace, none⟩ ∧
      ∃ exchanges : List Exchange,
        exchanges.map Exchange.cause = (dispatched askedEndpoint.session.trace).map .dispatch ∧
        (∀ exchange ∈ exchanges, exchange.Answers askedEndpoint.session.server.clientIp) ∧
        responseFramer.Reads (accepted askedEndpoint.session.trace)
          (exchanges.map Exchange.message) [] ∧
        responseFramer.drain (accepted askedEndpoint.session.trace) =
          ⟨exchanges.map Exchange.message, none⟩ :=
  all_answered_at_rest reachable_asked (by decide +kernel) rfl rfl

end Endpoint

end WebServer
