import WebServer.Connection.HalfClose

/-!
# Input is read exactly once

The received bytes of a connection are the texts of the dispatched requests, one behind the other, and
behind them what is still in the input buffer. This holds at every moment of every run, whatever the
calls return: no byte is skipped or read twice, and no request is dispatched before it has arrived. The
close decision makes no difference, and neither does an error, after which the buffer is kept.
-/

namespace WebServer

open Bytes HttpServer Execution

/-- Each text is one whole request. -/
def AreTexts (texts : List Bytes) (requests : List HttpRequest) : Prop :=
  List.Forall₂ (fun text request ↦ HttpRequest.parse text = .ok request text.length) texts requests

/-- The received bytes are the texts of the dispatched requests and the rest. -/
def LeavesUnread (trace : List Action) (rest : Bytes) : Prop :=
  ∃ texts, AreTexts texts (dispatched trace) ∧ received trace = texts.flatten ++ rest

theorem LeavesUnread.append_quiet {trace calls : List Action} {rest : Bytes}
    (h : LeavesUnread trace rest) (hquiet : dispatched calls = []) :
    LeavesUnread (trace ++ calls) (rest ++ received calls) := by
  obtain ⟨texts, htexts, hreceived⟩ := h
  refine ⟨texts, ?_, ?_⟩
  · rw [dispatched_append, hquiet, List.append_nil]
    exact htexts
  · rw [received_append, hreceived, List.append_assoc]

/-- The request at the front of the rest is the next text. -/
theorem LeavesUnread.dispatch {trace : List Action} {rest : Bytes} (h : LeavesUnread trace rest)
    {request : HttpRequest} {consumed : ℕ} (hparse : HttpRequest.parse rest = .ok request consumed) :
    LeavesUnread (trace ++ [.dispatch request]) (rest.drop consumed) := by
  obtain ⟨texts, htexts, hreceived⟩ := h
  obtain ⟨-, hle⟩ := HttpRequest.parse_consumed_bounds hparse
  have hlength : (rest.take consumed).length = consumed := List.length_take_of_le hle
  have htext : HttpRequest.parse (rest.take consumed) = .ok request (rest.take consumed).length := by
    rw [hlength]
    exact HttpRequest.parse_take_of_ok hparse
  refine ⟨texts ++ [rest.take consumed], ?_, ?_⟩
  · rw [dispatched_append]
    exact List.rel_append htexts (.cons htext .nil)
  · rw [received_append, hreceived, List.flatten_append, List.append_assoc]
    simp [received, Action.receivedBytes]

namespace Session

variable {session session' : Session}

/-- The buffer is what is left unread, and at every moment before something was. -/
structure ReadOnce (session : Session) : Prop where
  buffer : LeavesUnread session.trace session.server.inBuffer
  moments : ∀ moment, moment <+: session.trace → ∃ rest, LeavesUnread moment rest

/-- Calls that dispatch nothing leave more unread, by what they receive. -/
theorem ReadOnce.append_quiet (h : session.ReadOnce) {calls : List Action}
    (htrace : session'.trace = session.trace ++ calls)
    (hquiet : ∀ action ∈ calls, action.dispatchedRequest = none)
    (hbuffer : session'.server.inBuffer = session.server.inBuffer ++ received calls) :
    session'.ReadOnce := by
  have hdispatched {front : List Action} (hfront : front <+: calls) : dispatched front = [] :=
    List.filterMap_eq_nil_iff.mpr fun action hmem ↦ hquiet action (hfront.subset hmem)
  refine ⟨?_, ?_⟩
  · rw [htrace, hbuffer]
    exact h.buffer.append_quiet (hdispatched List.prefix_rfl)
  · rintro moment ⟨later, hlater⟩
    rw [htrace] at hlater
    obtain ⟨before, hbefore, -⟩ | ⟨front, rfl, hfront⟩ := List.append_eq_append_iff.mp hlater
    · exact h.moments moment ⟨before, hbefore.symm⟩
    · exact ⟨_, h.buffer.append_quiet (hdispatched ⟨later, hfront.symm⟩)⟩

/-- A dispatched request is the one at the front of the buffer. -/
theorem ReadOnce.dispatch (h : session.ReadOnce) {request : HttpRequest} {consumed : ℕ}
    (hparse : HttpRequest.parse session.server.inBuffer = .ok request consumed)
    (htrace : session'.trace = session.trace ++ [.dispatch request])
    (hbuffer : session'.server.inBuffer = session.server.inBuffer.drop consumed) :
    session'.ReadOnce := by
  refine ⟨?_, ?_⟩
  · rw [htrace, hbuffer]
    exact h.buffer.dispatch hparse
  · intro moment hmoment
    rw [htrace, List.prefix_concat_iff] at hmoment
    obtain rfl | hbefore := hmoment
    · exact ⟨_, h.buffer.dispatch hparse⟩
    · exact h.moments moment hbefore

/-- Calls of a kind that neither dispatches nor receives. -/
theorem ReadOnce.extends_silent (h : session.ReadOnce) {kind : Action → Prop}
    (hextends : Extends kind session session') (hkind : ∀ action, kind action → action.IsInputSilent)
    (hbuffer : session'.server.inBuffer = session.server.inBuffer) : session'.ReadOnce := by
  obtain ⟨calls, htrace, hcalls⟩ := hextends
  obtain ⟨-, -, hreceived⟩ := input_of_silent fun action hmem ↦ hkind action (hcalls action hmem)
  apply h.append_quiet htrace fun action hmem ↦ (hkind action (hcalls action hmem)).1
  rw [hbuffer, hreceived, List.append_nil]

/-! ## The parts of an event -/

theorem IsInputCall.dispatchedRequest {action : Action} (h : IsInputCall action) :
    action.dispatchedRequest = none := by
  cases action <;> first | rfl | exact absurd h id

theorem ReadOnce.recvIntoBuffer (h : session.ReadOnce) (recvs : List RecvResult) :
    (session.recvIntoBuffer recvs).ReadOnce := by
  obtain ⟨calls, htrace, hcalls⟩ := (recvIntoBuffer_extends session recvs).1
  have hreceived : received calls = (recvScan session.server.inBuffer.length recvs).1 := by
    have htotal := received_recvIntoBuffer session recvs
    rw [htrace, received_append] at htotal
    exact List.append_cancel_left htotal
  apply h.append_quiet htrace fun action hmem ↦ (hcalls action hmem).dispatchedRequest
  rw [recvIntoBuffer_server, hreceived]

theorem ReadOnce.afterRequest (h : session.ReadOnce) {request : HttpRequest} {consumed : ℕ}
    (hparse : HttpRequest.parse session.server.inBuffer = .ok request consumed) (env : Env) :
    (session.afterRequest env request consumed).ReadOnce := by
  have hdispatch : ReadOnce
      ⟨(session.afterRequest env request consumed).server, session.services,
        session.trace ++ [.dispatch request]⟩ :=
    h.dispatch hparse rfl (by rw [afterRequest_server])
  have hextends : Extends (fun action ↦ action.IsInputSilent)
      ⟨(session.afterRequest env request consumed).server, session.services,
        session.trace ++ [.dispatch request]⟩ (session.afterRequest env request consumed) := by
    refine ⟨(session.nextAnswer env request).calls ++
      (session.nextAnswer env request).segments.map .enqueue, by simp, ?_⟩
    intro action hmem
    obtain hcall | hsegment := List.mem_append.mp hmem
    · exact (isFileCall_of_mem_answer hcall).inputSilent
    · obtain ⟨segment, -, rfl⟩ := List.mem_map.mp hsegment
      exact ⟨rfl, rfl, rfl⟩
  exact hdispatch.extends_silent hextends (fun _ ↦ id) rfl

theorem ReadOnce.processRequests (h : session.ReadOnce) (envs : ℕ → Env) :
    (session.processRequests envs).ReadOnce := by
  refine processRequests_induct (motive := fun s s' ↦ s.ReadOnce → s'.ReadOnce) ?_ ?_ ?_ ?_ ?_
    envs session h
  · intro s _ hs
    exact hs
  · intro s errorCode _ hs
    rw [reject_eq]
    exact hs.append_quiet rfl (by simp [Action.dispatchedRequest])
      (by simp [received, Action.receivedBytes])
  · intro s env request consumed hparse _ hs
    exact hs.afterRequest hparse env
  · intro s env request consumed hparse _ _ hs
    have hlog : Extends (fun action ↦ action.IsInputSilent) (s.afterRequest env request consumed)
        (s.afterRequest env request consumed).outQueueExceeded :=
      (Extends.refl _).snoc rfl ⟨rfl, rfl, rfl⟩
    exact (hs.afterRequest hparse env).extends_silent hlog (fun _ ↦ id) rfl
  · intro s env request consumed s' hparse _ _ ih hs
    exact ih (hs.afterRequest hparse env)

theorem ReadOnce.tryFlush (h : session.ReadOnce) (results : ℕ → SysResult) :
    (session.tryFlush results).ReadOnce := by
  have hflushed := tryFlush_flushed results session
  obtain ⟨queue, registered, closed, hserver⟩ := hflushed.server
  apply h.extends_silent hflushed.calls fun _ ↦ IsFlushCall.inputSilent
  rw [hserver]

/-- Every event, whatever its calls return, reads each byte once. -/
theorem ReadOnce.step (h : session.ReadOnce) (event : Event) : (session.step event).ReadOnce := by
  cases event with
  | read recvs envs sends =>
    unfold Session.step handleRead
    dsimp only
    split
    · exact h
    · split
      · exact h.recvIntoBuffer recvs
      · split
        · exact (h.recvIntoBuffer recvs).processRequests envs
        · exact ((h.recvIntoBuffer recvs).processRequests envs).tryFlush sends
  | write sends =>
    unfold Session.step handleWrite
    dsimp only
    split
    · exact h
    · exact h.tryFlush sends
  | close =>
    unfold Session.step
    dsimp only
    split
    · exact h
    · have hclose : Extends (fun action ↦ action.IsInputSilent) session session.closeConnection :=
        (Extends.refl session).snoc rfl ⟨rfl, rfl, rfl⟩
      exact h.extends_silent hclose (fun _ ↦ id) rfl

theorem readOnce_new (fd : ℕ) (clientIp : Bytes) (services : Services) :
    (new fd clientIp services).ReadOnce := by
  refine ⟨⟨[], .nil, rfl⟩, ?_⟩
  intro moment hmoment
  obtain rfl := List.prefix_nil.mp hmoment
  exact ⟨[], [], .nil, rfl⟩

theorem readOnce_run (fd : ℕ) (clientIp : Bytes) (services : Services) (events : List Event) :
    (run step (new fd clientIp services) events).ReadOnce :=
  run_invariant_of_forall (fun _ event h ↦ h.step event) (readOnce_new fd clientIp services) events

/-- At every moment of every run of a connection, the received bytes are the texts of the dispatched
requests, in order and with nothing between them, and the bytes that are not read yet; between events
these are the input buffer. -/
theorem input_exactly_once (fd : ℕ) (clientIp : Bytes) (services : Services) (events : List Event) :
    (∀ moment, moment <+: (run step (new fd clientIp services) events).trace →
      ∃ texts rest, AreTexts texts (dispatched moment) ∧ received moment = texts.flatten ++ rest) ∧
    ∃ texts, AreTexts texts (dispatched (run step (new fd clientIp services) events).trace) ∧
      received (run step (new fd clientIp services) events).trace =
        texts.flatten ++ (run step (new fd clientIp services) events).server.inBuffer := by
  have hread := readOnce_run fd clientIp services events
  refine ⟨?_, hread.buffer⟩
  intro moment hmoment
  obtain ⟨rest, texts, htexts, hreceived⟩ := hread.moments moment hmoment
  exact ⟨texts, rest, htexts, hreceived⟩

end Session

end WebServer
