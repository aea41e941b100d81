import WebServer.Connection.CloseDecision
import WebServer.Connection.ClosesLast
import WebServer.Loop.EventLoop

/-!
# Waiting for room to write

Three things must agree for queued output to be sent: the queue, the flag `_writeRegistered`, and the
mask that epoll has for the socket. They change at different places while an event is handled; every
event on an open connection ends with a flush, and the flush brings them together.
-/

namespace WebServer

open Execution HttpServer

namespace Session

/-- The mask epoll has for the socket after these calls. -/
def interestMask (trace : List Action) : EpollEvents :=
  trace.foldl (fun mask action ↦
    match action with
    | .updateEvents events => events
    | _ => mask) EventLoop.acceptEvents

@[simp]
theorem interestMask_updateEvents (trace : List Action) (events : EpollEvents) :
    interestMask (trace ++ [.updateEvents events]) = events := by
  simp [interestMask]

/-- A call that leaves the mask as it is. -/
def KeepsInterest (action : Action) : Prop := ∀ events, action ≠ .updateEvents events

theorem interestMask_append {calls : List Action} (h : ∀ action ∈ calls, KeepsInterest action)
    (trace : List Action) : interestMask (trace ++ calls) = interestMask trace := by
  induction calls generalizing trace with
  | nil => rw [List.append_nil]
  | cons action calls ih =>
    obtain ⟨haction, hcalls⟩ := List.forall_mem_cons.mp h
    have hone : interestMask (trace ++ [action]) = interestMask trace := by
      cases action with
      | updateEvents events => exact absurd rfl (haction events)
      | _ => simp [interestMask]
    rw [List.append_cons, ih hcalls, hone]

theorem Extends.interestMask {kind : Action → Prop} {first second : Session}
    (h : Extends kind first second) (hkind : ∀ action, kind action → KeepsInterest action) :
    interestMask second.trace = interestMask first.trace := by
  obtain ⟨calls, htrace, hcalls⟩ := h
  rw [htrace]
  exact interestMask_append (fun action hmem ↦ hkind action (hcalls action hmem)) first.trace

theorem IsInputCall.keepsInterest {action : Action} (h : IsInputCall action) :
    KeepsInterest action := by
  rintro events rfl
  exact h

theorem IsRequestCall.keepsInterest {action : Action} (h : IsRequestCall action) :
    KeepsInterest action := by
  rintro events rfl
  exact h

theorem IsIdleCall.keepsInterest {result : SysResult} {action : Action}
    (h : IsIdleCall result action) : KeepsInterest action := by
  rintro events rfl
  rcases h with hsend | ⟨fileFd, hsendfile⟩
  · exact absurd hsend (by simp)
  · exact absurd hsendfile (by simp)

variable {session session' : Session}

/-- The mask asks for room to write just if the flag says so. -/
def InterestKnown (session : Session) : Prop :=
  (interestMask session.trace).epollout = session.server.writeRegistered

theorem InterestKnown.of_eq (h : session.InterestKnown)
    (hmask : interestMask session'.trace = interestMask session.trace)
    (hflag : session'.server.writeRegistered = session.server.writeRegistered) :
    session'.InterestKnown := by
  unfold InterestKnown
  rw [hmask, hflag]
  exact h

/-! ## What the parts of an event do -/

theorem InterestKnown.recvIntoBuffer (h : session.InterestKnown) (recvs : List RecvResult) :
    (session.recvIntoBuffer recvs).InterestKnown := by
  refine h.of_eq ((recvIntoBuffer_extends session recvs).1.interestMask fun _ ↦
    IsInputCall.keepsInterest) ?_
  rw [recvIntoBuffer_server]

theorem InterestKnown.processRequests (h : session.InterestKnown) (envs : ℕ → Env) :
    (session.processRequests envs).InterestKnown := by
  refine h.of_eq ((processRequests_processed envs session).calls.interestMask fun _ ↦
    IsRequestCall.keepsInterest) ?_
  refine processRequests_induct
    (motive := fun s s' ↦ s'.server.writeRegistered = s.server.writeRegistered)
    ?_ ?_ ?_ ?_ ?_ envs session
  · intros; rfl
  · intros; rw [reject_eq]
  · intros; rfl
  · intros; rfl
  · intro s env request consumed s' _ _ _ ih
    exact ih

theorem InterestKnown.flushStep (h : session.InterestKnown) (hstep : FlushStep session session') :
    session'.InterestKnown := by
  cases hstep with
  | popBytes hqueue => exact h
  | send | popFile | sendfile =>
    exact h.of_eq (interestMask_append (by simp [KeepsInterest]) session.trace) rfl

theorem InterestKnown.registerWrite (h : session.InterestKnown) :
    session.registerWrite.InterestKnown := by
  unfold Session.registerWrite
  split
  · exact h
  · exact congrArg EpollEvents.epollout (interestMask_updateEvents session.trace (interest true))

theorem InterestKnown.unregisterWrite (h : session.InterestKnown) :
    session.unregisterWrite.InterestKnown := by
  unfold Session.unregisterWrite
  split
  · exact congrArg EpollEvents.epollout (interestMask_updateEvents session.trace (interest false))
  · exact h

theorem InterestKnown.closeConnection (h : session.InterestKnown) :
    session.closeConnection.InterestKnown :=
  h.of_eq (interestMask_append (by simp [KeepsInterest]) session.trace) rfl

/-! ## A flush brings them together -/

/-- Between events, while the connection is open: it waits for room to write just if it has output,
epoll knows, and a connection that is to be closed still has something to send. -/
structure NoStall (session : Session) : Prop where
  registered_iff : session.server.writeRegistered = true ↔ session.server.outQueue ≠ []
  interest_iff : (interestMask session.trace).epollout = true ↔
    session.server.writeRegistered = true
  closing : session.server.closeAfterFlush = true → session.server.outQueue ≠ []

theorem InterestKnown.noStall (h : session.InterestKnown)
    (hregistered : session.server.writeRegistered = true ↔ session.server.outQueue ≠ [])
    (hclosing : session.server.closeAfterFlush = true → session.server.outQueue ≠ []) :
    session.NoStall :=
  ⟨hregistered, by rw [h], hclosing⟩

theorem InterestKnown.finishFlush (h : session.InterestKnown) :
    session.finishFlush.InterestKnown := by
  rw [finishFlush_eq]
  split
  · exact h.unregisterWrite.closeConnection
  · exact h.unregisterWrite

theorem FlushEnd.noStall (h : FlushEnd session session') (hknown : session.InterestKnown) :
    session'.InterestKnown ∧ (session'.server.closed = false → session'.NoStall) := by
  cases h with
  | drained hqueue =>
    have hserver := finishFlush_server session
    refine ⟨hknown.finishFlush, fun hopen ↦ hknown.finishFlush.noStall ?_ fun hclosing ↦ ?_⟩
    · rw [hserver]
      simp [hqueue]
    · rw [hserver] at hopen hclosing
      exact absurd hclosing (by simpa using (Bool.or_eq_false_iff.mp hopen).2)
  | blocked result action hqueue hcall hblock =>
    have hemit : (session.emit action).InterestKnown :=
      hknown.of_eq (interestMask_append (by simpa using hcall.keepsInterest) session.trace) rfl
    have hserver := registerWrite_server (session.emit action)
    have hqueue' : (session.emit action).registerWrite.server.outQueue ≠ [] := by
      rw [hserver]
      exact hqueue
    have hflag : (session.emit action).registerWrite.server.writeRegistered = true := by
      rw [hserver]
    exact ⟨hemit.registerWrite, fun _ ↦ hemit.registerWrite.noStall (iff_of_true hflag hqueue')
      fun _ ↦ hqueue'⟩
  | failed result action message hqueue hcall hret hblock =>
    have hlog : ((session.emit action).log .warning message).InterestKnown := by
      refine hknown.of_eq ?_ rfl
      have hcalls : ∀ call ∈ [action, .log .warning message], KeepsInterest call := by
        simpa [KeepsInterest] using hcall.keepsInterest
      have hmask := interestMask_append hcalls session.trace
      simpa using hmask
    exact ⟨hlog.closeConnection, fun hopen ↦ absurd hopen (by simp)⟩

/-- However the calls of a flush go, afterwards nothing stalls. -/
theorem InterestKnown.tryFlush (h : session.InterestKnown) (results : ℕ → SysResult) :
    (session.tryFlush results).InterestKnown ∧
      ((session.tryFlush results).server.closed = false → (session.tryFlush results).NoStall) :=
  tryFlush_induct
    (motive := fun s s' ↦ s.InterestKnown → s'.InterestKnown ∧ (s'.server.closed = false → s'.NoStall))
    (fun _ _ hend hknown ↦ hend.noStall hknown)
    (fun _ _ _ hstep ih hknown ↦ ih (hknown.flushStep hstep)) results session h

/-! ## Runs -/

/-- What holds between events, open or closed. -/
def Attentive (session : Session) : Prop :=
  session.InterestKnown ∧ (session.server.closed = false → session.NoStall)

theorem Attentive.step (h : session.Attentive) (event : Event) : (session.step event).Attentive := by
  obtain ⟨hknown, hopen⟩ := h
  cases event with
  | read recvs envs sends =>
    unfold Session.step handleRead
    dsimp only
    split
    · exact ⟨hknown, hopen⟩
    · have hrecv := hknown.recvIntoBuffer recvs
      split
      · rename_i hclosed
        exact ⟨hrecv, fun hstill ↦ absurd hclosed (by simp [hstill])⟩
      · have hprocess := hrecv.processRequests envs
        split
        · rename_i hclosed
          exact ⟨hprocess, fun hstill ↦ absurd hclosed (by simp [hstill])⟩
        · exact hprocess.tryFlush sends
  | write sends =>
    unfold Session.step handleWrite
    dsimp only
    split
    · exact ⟨hknown, hopen⟩
    · exact hknown.tryFlush sends
  | close =>
    unfold Session.step
    dsimp only
    split
    · exact ⟨hknown, hopen⟩
    · exact ⟨hknown.closeConnection, fun hstill ↦ absurd hstill (by simp)⟩

theorem attentive_new (fd : ℕ) (clientIp : Bytes) (services : Services) :
    (new fd clientIp services).Attentive := by
  have hknown : (new fd clientIp services).InterestKnown := rfl
  exact ⟨hknown, fun _ ↦ hknown.noStall (by simp [new, HttpServer.new])
    (by simp [new, HttpServer.new])⟩

/-- After any events on a connection, with whatever input and results of its calls, an open connection
has nothing stalled. -/
theorem no_stalled_output (fd : ℕ) (clientIp : Bytes) (services : Services) (events : List Event)
    (hopen : (run step (new fd clientIp services) events).server.closed = false) :
    (run step (new fd clientIp services) events).NoStall :=
  (run_invariant_of_forall (fun _ event h ↦ h.step event) (attentive_new fd clientIp services)
    events).2 hopen

/-- A refused request whose answer does not fit into the socket yet. -/
theorem no_stalled_output_refusedRead :
    (run step (new 7 [] ⟨⟨∅⟩, .new, .static⟩) [refusedRead]).NoStall :=
  no_stalled_output 7 [] ⟨⟨∅⟩, .new, .static⟩ [refusedRead] (by decide)

end Session

end WebServer
