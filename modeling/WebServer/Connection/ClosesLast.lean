import WebServer.Connection.Effects

/-!
# Nothing follows a close

A handler that closes its connection makes no further call: the receive loop returns, the tests of
`_closed` end the event, and the flush returns. The event loop relies on this, because the descriptor
may belong to another connection as soon as it has been closed.
-/

namespace WebServer

open Bytes HttpServer

namespace Session

/-- What a handler does to an open connection: it keeps the descriptor, and leaves the connection
open without asking for a close or closes it with its last call. -/
structure ClosesLast (session session' : Session) : Prop where
  fd : session'.server.fd = session.server.fd
  calls : (session'.server.closed = false ∧ Extends (· ≠ .closeConnection) session session') ∨
    (session'.server.closed = true ∧ ∃ last, Extends (· ≠ .closeConnection) session last ∧
      session'.trace = last.trace ++ [.closeConnection])

namespace ClosesLast

variable {first second third : Session}

/-- Calls without a close leave an open connection open. -/
theorem of_extends (hfd : second.server.fd = first.server.fd)
    (hopen : second.server.closed = false) (h : Extends (· ≠ .closeConnection) first second) :
    ClosesLast first second :=
  ⟨hfd, .inl ⟨hopen, h⟩⟩

theorem closeConnection (hfd : second.server.fd = first.server.fd)
    (h : Extends (· ≠ .closeConnection) first second) : ClosesLast first second.closeConnection :=
  ⟨hfd, .inr ⟨rfl, second, h, rfl⟩⟩

/-- A connection that is still open may go on. -/
theorem trans (h₁ : ClosesLast first second) (hopen : second.server.closed = false)
    (h₂ : ClosesLast second third) : ClosesLast first third := by
  rcases h₁.calls with ⟨-, hfirst⟩ | ⟨hclosed, -⟩
  · refine ⟨h₂.fd.trans h₁.fd, ?_⟩
    rcases h₂.calls with ⟨hthird, hsecond⟩ | ⟨hthird, last, hsecond, htrace⟩
    · exact .inl ⟨hthird, hfirst.trans hsecond⟩
    · exact .inr ⟨hthird, last, hfirst.trans hsecond, htrace⟩
  · exact absurd (hclosed.symm.trans hopen) (by simp)

end ClosesLast

/-! ## Receiving -/

theorem recvIntoBuffer_closesLast {session : Session} (hopen : session.server.closed = false)
    (results : List RecvResult) : ClosesLast session (session.recvIntoBuffer results) := by
  induction results generalizing session with
  | nil => exact .of_extends rfl hopen ((Extends.refl session).snoc rfl (by simp))
  | cons result results ih =>
    have hcall : Extends (· ≠ .closeConnection) session (session.emit (.recv result)) :=
      (Extends.refl session).snoc rfl (by simp)
    have hlog (message : Bytes) : Extends (· ≠ .closeConnection) session
        ((session.emit (.recv result)).log .warning message) :=
      hcall.snoc rfl (by simp)
    cases result with
    | received data =>
      unfold recvIntoBuffer
      dsimp only
      split
      · exact .closeConnection rfl hcall
      · have happend : ClosesLast session ((session.emit (.recv (.received data))).setServer
            { session.server with inBuffer := session.server.inBuffer ++ data }) :=
          .of_extends rfl hopen (hcall.trans (.of_trace_eq rfl))
        split
        · exact .closeConnection rfl ((hcall.trans (.of_trace_eq rfl)).snoc rfl (by simp))
        · exact happend.trans hopen (ih hopen)
    | failed errno =>
      unfold recvIntoBuffer
      dsimp only
      split
      · exact .of_extends rfl hopen hcall
      · exact .closeConnection rfl (hlog _)

/-! ## Processing -/

/-- The calls made while requests are processed. -/
def IsRequestCall : Action → Prop
  | .dispatch _ | .reject _ | .enqueue _ | .openFile .. | .closeFile _ | .log .. => True
  | _ => False

theorem IsFileCall.isRequestCall {action : Action} (h : IsFileCall action) :
    IsRequestCall action := by
  cases action <;> first | exact trivial | exact absurd h id

/-- What processing may change, as far as the event loop can see. -/
structure Processed (session session' : Session) : Prop where
  fd : session'.server.fd = session.server.fd
  calls : Extends IsRequestCall session session'

theorem afterRequest_processed (session : Session) (env : Env) (request : HttpRequest)
    (consumed : ℕ) : Processed session (session.afterRequest env request consumed) := by
  refine ⟨rfl, _, afterRequest_trace .., fun action hmem ↦ ?_⟩
  rcases List.mem_cons.mp hmem with rfl | hmem
  · trivial
  · rcases List.mem_append.mp hmem with hcall | hsegment
    · exact (isFileCall_of_mem_answer hcall).isRequestCall
    · obtain ⟨segment, -, rfl⟩ := List.mem_map.mp hsegment
      trivial

theorem processRequests_processed (envs : ℕ → Env) (session : Session) :
    Processed session (session.processRequests envs) := by
  refine processRequests_induct (motive := Processed) ?_ ?_ ?_ ?_ ?_ envs session
  · intro session _
    exact ⟨rfl, Extends.refl session⟩
  · intro session errorCode _
    rw [reject_eq]
    exact ⟨rfl, _, rfl, by simp [IsRequestCall]⟩
  · intro session env request consumed _ _
    exact afterRequest_processed ..
  · intro session env request consumed _ _ _
    obtain ⟨message, htrace⟩ := outQueueExceeded_trace (session.afterRequest env request consumed)
    exact ⟨rfl, (afterRequest_processed ..).calls.snoc htrace trivial⟩
  · intro session env request consumed session' _ _ _ ih
    have hafter := afterRequest_processed session env request consumed
    exact ⟨ih.fd.trans hafter.fd, hafter.calls.trans ih.calls⟩

theorem IsRequestCall.ne_closeConnection {action : Action} (h : IsRequestCall action) :
    action ≠ .closeConnection := by
  rintro rfl
  exact h

theorem processRequests_closesLast {session : Session} (hopen : session.server.closed = false)
    (envs : ℕ → Env) : ClosesLast session (session.processRequests envs) :=
  have h := processRequests_processed envs session
  .of_extends h.fd ((processRequests_closed ..).trans hopen)
    (h.calls.mono fun _ ↦ IsRequestCall.ne_closeConnection)

/-! ## Flushing -/

theorem IsIdleCall.ne_closeConnection {result : SysResult} {action : Action}
    (h : IsIdleCall result action) : action ≠ .closeConnection := by
  rcases h with rfl | ⟨fileFd, rfl⟩ <;> simp

theorem FlushStep.closesLast {session next : Session} (h : FlushStep session next)
    (hopen : session.server.closed = false) : ClosesLast session next := by
  cases h with
  | popBytes hqueue => exact .of_extends rfl hopen (.of_trace_eq rfl)
  | send result n hqueue hpos hle =>
    exact .of_extends rfl hopen ((Extends.refl session).snoc rfl (by simp))
  | popFile hqueue => exact .of_extends rfl hopen ((Extends.refl session).snoc rfl (by simp))
  | sendfile result n hqueue hpos hle =>
    exact .of_extends rfl hopen ((Extends.refl session).snoc rfl (by simp))

theorem FlushEnd.closesLast {session session' : Session} (h : FlushEnd session session')
    (hopen : session.server.closed = false) : ClosesLast session session' := by
  cases h with
  | drained hqueue =>
    have hunregister : ClosesLast session session.unregisterWrite := by
      unfold unregisterWrite
      split
      · exact .of_extends rfl hopen ((Extends.refl session).snoc rfl (by simp))
      · exact .of_extends rfl hopen (Extends.refl session)
    have hstill : session.unregisterWrite.server.closed = false := by
      rw [unregisterWrite_server]
      exact hopen
    rw [finishFlush_eq]
    split
    · exact hunregister.trans hstill (.closeConnection rfl (Extends.refl _))
    · exact hunregister
  | blocked result action hqueue hcall hblock =>
    have hemit : Extends (· ≠ .closeConnection) session (session.emit action) :=
      (Extends.refl session).snoc rfl hcall.ne_closeConnection
    unfold registerWrite
    split
    · exact .of_extends rfl hopen hemit
    · exact .of_extends rfl hopen (hemit.snoc rfl (by simp))
  | failed result action message hqueue hcall hret hblock =>
    have hemit : Extends (· ≠ .closeConnection) session (session.emit action) :=
      (Extends.refl session).snoc rfl hcall.ne_closeConnection
    exact .closeConnection rfl (hemit.snoc rfl (by simp))

theorem tryFlush_closesLast {session : Session} (hopen : session.server.closed = false)
    (results : ℕ → SysResult) : ClosesLast session (session.tryFlush results) := by
  refine tryFlush_induct
    (motive := fun s s' ↦ s.server.closed = false → ClosesLast s s') ?_ ?_ results session hopen
  · intro s s' hend hs
    exact hend.closesLast hs
  · intro s next s' hstep ih hs
    have hnext : next.server.closed = false := by
      cases hstep <;> exact hs
    exact (hstep.closesLast hs).trans hnext (ih hnext)

/-! ## Handlers -/

theorem handleRead_closesLast {session : Session} (hopen : session.server.closed = false)
    (recvs : List RecvResult) (envs : ℕ → Env) (sends : ℕ → SysResult) :
    ClosesLast session (session.handleRead recvs envs sends) := by
  have hrecv := recvIntoBuffer_closesLast hopen recvs
  unfold handleRead
  rw [if_neg (by simp [hopen])]
  dsimp only
  split
  · exact hrecv
  · rename_i hreceived
    rw [Bool.not_eq_true] at hreceived
    have hprocess := hrecv.trans hreceived (processRequests_closesLast hreceived envs)
    have hprocessed := (processRequests_closed envs (session.recvIntoBuffer recvs)).trans hreceived
    rw [if_neg (by simp [hprocessed])]
    exact hprocess.trans hprocessed (tryFlush_closesLast hprocessed sends)

theorem handleWrite_closesLast {session : Session} (hopen : session.server.closed = false)
    (sends : ℕ → SysResult) : ClosesLast session (session.handleWrite sends) := by
  rw [handleWrite, if_neg (by simp [hopen])]
  exact tryFlush_closesLast hopen sends

theorem handleWrite_of_closed {session : Session} (h : session.server.closed = true)
    (sends : ℕ → SysResult) : session.handleWrite sends = session := by
  simp [handleWrite, h]

end Session

end WebServer
