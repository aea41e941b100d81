import WebServer.Connection.ClosesLast
import WebServer.Connection.StaticConfinement

/-!
# Descriptors of static files

A descriptor that is opened for a static file is closed at once if it is not a regular file, or with
its segment when that has been sent, or by the destructor. The descriptors that are open are the ones
in the output queue, so none is closed twice and none is left open.

Descriptors are reused. What the proof takes from the kernel is that `open` does not return a descriptor
that is still open.
-/

namespace WebServer

open Execution Bytes HttpServer

/-- What a call does with a descriptor. -/
inductive FileCall where
  | opened
  | closed
  deriving DecidableEq

def Action.fileCall (fd : ℕ) : Action → Option FileCall
  | openFile _ fileFd => if fileFd = fd then some .opened else none
  | closeFile fileFd => if fileFd = fd then some .closed else none
  | _ => none

/-- The calls on one descriptor, in their order. -/
def fileCalls (fd : ℕ) (trace : List Action) : List FileCall :=
  trace.filterMap (Action.fileCall fd)

/-- Calls that open and close by turns, beginning with an open. The flag tells whether the last one is
an open; if not, every open has been followed by exactly one close. -/
inductive Alternates : Bool → List FileCall → Prop
  | nil : Alternates false []
  | opened {calls : List FileCall} : Alternates false calls → Alternates true (calls ++ [.opened])
  | closed {calls : List FileCall} : Alternates true calls → Alternates false (calls ++ [.closed])

/-- The descriptors of the file segments of a queue. -/
def queueFds (queue : List OutSegment) : List ℕ :=
  queue.filterMap fun
    | .file fileFd _ _ _ => some fileFd
    | .bytes _ => none

/-- `open` returns no descriptor whose last call was an open. -/
def FreshOpens (trace : List Action) : Prop :=
  ∀ before path fd after, trace = before ++ .openFile path fd :: after →
    (fileCalls fd before).getLast? ≠ some .opened

/-! ## Calls on descriptors -/

@[simp]
theorem fileCalls_append (fd : ℕ) (first second : List Action) :
    fileCalls fd (first ++ second) = fileCalls fd first ++ fileCalls fd second :=
  List.filterMap_append

@[simp]
theorem queueFds_append (first second : List OutSegment) :
    queueFds (first ++ second) = queueFds first ++ queueFds second :=
  List.filterMap_append

/-- A call that opens and closes no file. -/
def Action.NoFileCall (action : Action) : Prop := ∀ fd, action.fileCall fd = none

theorem fileCalls_of_noFileCall {calls : List Action} (h : ∀ action ∈ calls, action.NoFileCall)
    (fd : ℕ) : fileCalls fd calls = [] :=
  List.filterMap_eq_nil_iff.mpr fun action hmem ↦ h action hmem fd

theorem Alternates.getLast? {isOpen : Bool} {calls : List FileCall} (h : Alternates isOpen calls) :
    calls.getLast? = some .opened ↔ isOpen = true := by
  cases h <;> simp

theorem FreshOpens.of_prefix {first second : List Action} (h : FreshOpens second)
    (hfirst : first <+: second) : FreshOpens first := by
  obtain ⟨rest, rfl⟩ := hfirst
  rintro before path fd after rfl
  exact h before path fd (after ++ rest) (by simp)

/-- If no descriptor is opened twice at all, none is opened while it is open. -/
theorem freshOpens_of_nodup {trace : List Action}
    (h : (trace.filterMap fun
      | .openFile _ fd => some fd
      | _ => none).Nodup) : FreshOpens trace := by
  rintro before path fd after rfl hlast
  obtain ⟨action, haction, hcall⟩ := List.mem_filterMap.mp (List.mem_of_getLast? hlast)
  rw [List.filterMap_append, List.filterMap_cons] at h
  refine (List.disjoint_of_nodup_append h) (List.mem_filterMap.mpr ⟨action, haction, ?_⟩)
    List.mem_cons_self
  cases action with
  | openFile path fileFd =>
    by_cases hfd : fileFd = fd
    · exact congrArg some hfd
    · simp [Action.fileCall, hfd] at hcall
  | closeFile fileFd =>
    by_cases hfd : fileFd = fd <;> simp [Action.fileCall, hfd] at hcall
  | _ => exact absurd hcall (by simp [Action.fileCall])

/-! ## The ledger -/

/-- The descriptors that are open after a trace: each of them once, and each descriptor with calls that
open and close it by turns. -/
structure OpenFiles (trace : List Action) (fds : List ℕ) : Prop where
  nodup : fds.Nodup
  alternates : ∀ fd, Alternates (decide (fd ∈ fds)) (fileCalls fd trace)

namespace OpenFiles

variable {trace calls : List Action} {fds front back : List ℕ} {fd : ℕ}

theorem nil : OpenFiles [] [] := ⟨List.nodup_nil, fun _ ↦ .nil⟩

theorem append (h : OpenFiles trace fds) (hcalls : ∀ action ∈ calls, action.NoFileCall) :
    OpenFiles (trace ++ calls) fds := by
  refine ⟨h.nodup, fun fd ↦ ?_⟩
  rw [fileCalls_append, fileCalls_of_noFileCall hcalls, List.append_nil]
  exact h.alternates fd

theorem openFile (h : OpenFiles trace fds) (path : Bytes)
    (hfresh : (fileCalls fd trace).getLast? ≠ some .opened) :
    OpenFiles (trace ++ [.openFile path fd]) (fds ++ [fd]) := by
  have hnot : fd ∉ fds := by
    rw [Ne, (h.alternates fd).getLast?, decide_eq_true_eq] at hfresh
    exact hfresh
  refine ⟨List.concat_eq_append ▸ h.nodup.concat hnot, fun other ↦ ?_⟩
  have hother := h.alternates other
  by_cases hfd : fd = other
  · subst hfd
    rw [decide_eq_false hnot] at hother
    have hcalls : fileCalls fd [.openFile path fd] = [.opened] := by simp [fileCalls, Action.fileCall]
    rw [fileCalls_append, hcalls, decide_eq_true (by simp)]
    exact hother.opened
  · have hcalls : fileCalls other [.openFile path fd] = [] := by
      simp [fileCalls, Action.fileCall, hfd]
    have hmem : other ∈ fds ++ [fd] ↔ other ∈ fds := by simp [Ne.symm hfd]
    rwa [fileCalls_append, hcalls, List.append_nil, decide_eq_decide.mpr hmem]

theorem closeFile (h : OpenFiles trace (front ++ fd :: back)) :
    OpenFiles (trace ++ [.closeFile fd]) (front ++ back) := by
  have hnodup := h.nodup
  rw [List.perm_middle.nodup_iff, List.nodup_cons] at hnodup
  obtain ⟨hnot, hrest⟩ := hnodup
  refine ⟨hrest, fun other ↦ ?_⟩
  have hother := h.alternates other
  by_cases hfd : fd = other
  · subst hfd
    rw [decide_eq_true (by simp)] at hother
    have hcalls : fileCalls fd [.closeFile fd] = [.closed] := by simp [fileCalls, Action.fileCall]
    rw [fileCalls_append, hcalls, decide_eq_false hnot]
    exact hother.closed
  · have hcalls : fileCalls other [.closeFile fd] = [] := by
      simp [fileCalls, Action.fileCall, hfd]
    have hmem : other ∈ front ++ back ↔ other ∈ front ++ fd :: back := by simp [Ne.symm hfd]
    rwa [fileCalls_append, hcalls, List.append_nil, decide_eq_decide.mpr hmem]

/-- Closing all of them leaves none. -/
theorem closeAll (h : OpenFiles trace fds) : OpenFiles (trace ++ fds.map .closeFile) [] := by
  induction fds generalizing trace with
  | nil => simpa using h
  | cons fd fds ih =>
    have hfirst : OpenFiles trace ([] ++ fd :: fds) := h
    rw [List.map_cons, List.append_cons]
    exact ih hfirst.closeFile

end OpenFiles

namespace Session

/-- The open files of a connection are those of the file segments in its output queue. -/
def FilesHeld (session : Session) : Prop :=
  OpenFiles session.trace (queueFds session.server.outQueue)

variable {session session' : Session}

theorem FilesHeld.of_extends {kind : Action → Prop} (h : session.FilesHeld)
    (hcalls : Extends kind session session') (hkind : ∀ action, kind action → action.NoFileCall)
    (hqueue : queueFds session'.server.outQueue = queueFds session.server.outQueue) :
    session'.FilesHeld := by
  obtain ⟨calls, htrace, hcalls⟩ := hcalls
  unfold FilesHeld
  rw [hqueue, htrace]
  exact OpenFiles.append h fun action hmem ↦ hkind action (hcalls action hmem)

theorem IsInputCall.noFileCall {action : Action} (h : IsInputCall action) : action.NoFileCall := by
  cases action <;> first | exact fun _ ↦ rfl | exact absurd h id

theorem IsIdleCall.noFileCall {result : SysResult} {action : Action}
    (h : IsIdleCall result action) : action.NoFileCall := by
  rcases h with rfl | ⟨fileFd, rfl⟩ <;> exact fun _ ↦ rfl

/-! ## Answers -/

/-- A file is opened for an answer at most once, and it is closed at once or queued. -/
inductive OpensFor : List Action → List OutSegment → Prop
  | nothing {calls : List Action} {segments : List OutSegment}
      (hcalls : ∀ action ∈ calls, action.NoFileCall) (hsegments : queueFds segments = []) :
      OpensFor calls segments
  | refused {path : Bytes} {fd : ℕ} {segments : List OutSegment} (hsegments : queueFds segments = []) :
      OpensFor [.openFile path fd, .closeFile fd] segments
  | queued {path : Bytes} {fd : ℕ} {segments : List OutSegment}
      (hsegments : queueFds segments = [fd]) : OpensFor [.openFile path fd] segments

theorem fileAnswer_opensFor (env : Env) (keepAlive : Bool) (services : Services) (path : Bytes) :
    OpensFor (fileAnswer env keepAlive services path).calls
      (fileAnswer env keepAlive services path).segments := by
  unfold fileAnswer
  split
  · exact .nothing (by simp [Action.NoFileCall, Action.fileCall]) rfl
  · split
    · exact .queued rfl
    · exact .refused rfl

theorem answer_opensFor (env : Env) (keepAlive : Bool) (clientIp : Bytes) (services : Services)
    (request : HttpRequest) : OpensFor (answer env keepAlive clientIp services request).calls
      (answer env keepAlive clientIp services request).segments := by
  unfold answer
  split
  · exact .nothing (by simp) rfl
  · split
    · exact fileAnswer_opensFor ..
    · exact .nothing (by simp) rfl

/-- A request keeps the ledger, if `open` returned a fresh descriptor. -/
theorem FilesHeld.afterRequest (h : session.FilesHeld) (env : Env) (request : HttpRequest)
    (consumed : ℕ) (hfresh : FreshOpens (session.afterRequest env request consumed).trace) :
    (session.afterRequest env request consumed).FilesHeld := by
  have hopens := answer_opensFor env request.keepAlive session.server.clientIp session.services
    request
  have hnext : session.nextAnswer env request =
      answer env request.keepAlive session.server.clientIp session.services request := rfl
  rw [← hnext] at hopens
  have hdispatch : OpenFiles (session.trace ++ [.dispatch request])
      (queueFds session.server.outQueue) := OpenFiles.append h (by simp [Action.NoFileCall, Action.fileCall])
  have henqueue (segments : List OutSegment) : ∀ action ∈ segments.map Action.enqueue,
      action.NoFileCall := by
    simp [Action.NoFileCall, Action.fileCall]
  unfold FilesHeld
  rw [afterRequest_trace] at hfresh
  rw [afterRequest_trace, afterRequest_server, queueFds_append, List.append_cons]
  generalize (session.nextAnswer env request).calls = calls at hopens hfresh
  generalize (session.nextAnswer env request).segments = segments at hopens hfresh
  have hopenFresh {path : Bytes} {fd : ℕ} (hcall : calls.head? = some (.openFile path fd)) :
      (fileCalls fd (session.trace ++ [.dispatch request])).getLast? ≠ some .opened := by
    obtain ⟨rest, rfl⟩ := List.head?_eq_some_iff.mp hcall
    exact hfresh _ path fd (rest ++ segments.map .enqueue) (by simp)
  cases hopens with
  | nothing hcalls hsegments =>
    rw [hsegments, List.append_nil]
    exact hdispatch.append (List.forall_mem_append.mpr ⟨hcalls, henqueue segments⟩)
  | @refused path fd _ hsegments =>
    have hclosed := (hdispatch.openFile path (hopenFresh rfl)).closeFile.append (henqueue segments)
    rw [hsegments]
    simpa using hclosed
  | @queued path fd _ hsegments =>
    have hopened := hdispatch.openFile path (hopenFresh rfl)
    rw [hsegments, ← List.append_assoc]
    exact hopened.append (henqueue segments)

/-! ## Events -/

theorem FilesHeld.processRequests (h : session.FilesHeld) (envs : ℕ → Env)
    (hfresh : FreshOpens (session.processRequests envs).trace) :
    (session.processRequests envs).FilesHeld := by
  have hprocess := processRequests_induct
    (motive := fun s s' ↦ s.trace <+: s'.trace ∧
      (FreshOpens s'.trace → s.FilesHeld → s'.FilesHeld)) ?_ ?_ ?_ ?_ ?_ envs session
  · exact hprocess.2 hfresh h
  · intro s _
    exact ⟨List.prefix_rfl, fun _ held ↦ held⟩
  · intro s errorCode _
    rw [reject_eq]
    refine ⟨List.prefix_append .., fun _ held ↦ ?_⟩
    unfold FilesHeld
    rw [queueFds_append]
    have hcalls : OpenFiles (s.trace ++ [.reject errorCode,
        .enqueue (.bytes (parseErrorResponse errorCode).toString)]) (queueFds s.server.outQueue) :=
      held.append (by simp [Action.NoFileCall, Action.fileCall])
    simpa [queueFds] using hcalls
  · intro s env request consumed _ _
    exact ⟨⟨_, (afterRequest_trace ..).symm⟩, fun hfresh held ↦ held.afterRequest _ _ _ hfresh⟩
  · intro s env request consumed _ _ _
    obtain ⟨message, htrace⟩ := outQueueExceeded_trace (s.afterRequest env request consumed)
    have hfirst : (s.afterRequest env request consumed).trace <+:
        (s.afterRequest env request consumed).outQueueExceeded.trace := ⟨_, htrace.symm⟩
    refine ⟨List.IsPrefix.trans ⟨_, (afterRequest_trace ..).symm⟩ hfirst, fun hfresh held ↦ ?_⟩
    have hafter := held.afterRequest env request consumed (hfresh.of_prefix hfirst)
    unfold FilesHeld
    rw [htrace]
    exact hafter.append (by simp [Action.NoFileCall, Action.fileCall])
  · rintro s env request consumed s' _ _ _ ⟨hfirst, ih⟩
    refine ⟨List.IsPrefix.trans ⟨_, (afterRequest_trace ..).symm⟩ hfirst, fun hfresh held ↦ ?_⟩
    exact ih hfresh (held.afterRequest env request consumed (hfresh.of_prefix hfirst))

theorem FilesHeld.flushStep (h : session.FilesHeld) (hstep : FlushStep session session') :
    session'.FilesHeld := by
  unfold FilesHeld at h
  cases hstep with
  | popBytes hqueue =>
    rw [hqueue] at h
    exact h
  | send result n hqueue =>
    rw [hqueue] at h
    exact h.append (by simp [Action.NoFileCall, Action.fileCall])
  | @popFile queue fileFd _ _ hqueue =>
    have hfirst : OpenFiles session.trace ([] ++ fileFd :: queueFds queue) := by
      rw [hqueue] at h
      exact h
    exact hfirst.closeFile
  | sendfile result n hqueue =>
    rw [hqueue] at h
    exact h.append (by simp [Action.NoFileCall, Action.fileCall])

theorem FilesHeld.flushEnd (h : session.FilesHeld) (hend : FlushEnd session session') :
    session'.FilesHeld := by
  have hemit {session : Session} (h : session.FilesHeld) (action : Action)
      (haction : action.NoFileCall) : (session.emit action).FilesHeld :=
    OpenFiles.append h (by simpa using haction)
  have hclose {session : Session} (h : session.FilesHeld) : session.closeConnection.FilesHeld :=
    OpenFiles.append h (by simp [Action.NoFileCall, Action.fileCall])
  have hregistered {session : Session} (h : session.FilesHeld) (events : EpollEvents) (flag : Bool) :
      ((session.setServer { session.server with writeRegistered := flag }).emit
        (.updateEvents events)).FilesHeld :=
    OpenFiles.append h (by simp [Action.NoFileCall, Action.fileCall])
  cases hend with
  | drained hqueue =>
    have hunregister : session.unregisterWrite.FilesHeld := by
      unfold unregisterWrite
      split
      · exact hregistered h ..
      · exact h
    rw [finishFlush_eq]
    split
    · exact hclose hunregister
    · exact hunregister
  | blocked result action hqueue hcall hblock =>
    unfold registerWrite
    split
    · exact hemit h action hcall.noFileCall
    · exact hregistered (hemit h action hcall.noFileCall) ..
  | failed result action message hqueue hcall hret hblock =>
    exact hclose (hemit (hemit h action hcall.noFileCall) _ fun _ ↦ rfl)

theorem FilesHeld.tryFlush (h : session.FilesHeld) (results : ℕ → SysResult) :
    (session.tryFlush results).FilesHeld :=
  tryFlush_induct (motive := fun s s' ↦ s.FilesHeld → s'.FilesHeld)
    (fun _ _ hend held ↦ held.flushEnd hend)
    (fun _ _ _ hstep ih held ↦ ih (held.flushStep hstep)) results session h

theorem FilesHeld.step (h : session.FilesHeld) (event : Event)
    (hfresh : FreshOpens (session.step event).trace) : (session.step event).FilesHeld := by
  cases event with
  | read recvs envs sends =>
    unfold Session.step handleRead at hfresh ⊢
    dsimp only at hfresh ⊢
    have hrecv : (session.recvIntoBuffer recvs).FilesHeld :=
      h.of_extends (recvIntoBuffer_extends session recvs).1 (fun _ ↦ IsInputCall.noFileCall)
        (by rw [recvIntoBuffer_server])
    split
    · exact h
    · rename_i hopen
      rw [if_neg hopen] at hfresh
      split
      · exact hrecv
      · rename_i hopen
        rw [if_neg hopen] at hfresh
        split
        · rename_i hclosed
          rw [if_pos hclosed] at hfresh
          exact hrecv.processRequests envs hfresh
        · rename_i hopen
          rw [if_neg hopen] at hfresh
          obtain ⟨calls, htrace, -⟩ := (tryFlush_flushed sends
            ((session.recvIntoBuffer recvs).processRequests envs)).calls
          exact (hrecv.processRequests envs (hfresh.of_prefix ⟨calls, htrace.symm⟩)).tryFlush sends
  | write sends =>
    unfold Session.step handleWrite
    dsimp only
    split
    · exact h
    · exact h.tryFlush sends
  | close =>
    unfold Session.step
    dsimp only
    split
    · exact h
    · exact OpenFiles.append h (by simp [Action.NoFileCall, Action.fileCall])

/-! ## The life of a connection -/

/-- The destructor closes the descriptors of the queue. -/
theorem closeAllFiles_trace (session : Session) : session.closeAllFiles.trace =
    session.trace ++ (queueFds session.server.outQueue).map .closeFile := by
  unfold closeAllFiles
  have hfold (queue : List OutSegment) (session : Session) : (queue.foldl (fun session segment ↦
      match segment with
      | .file fileFd _ _ _ => session.emit (.closeFile fileFd)
      | .bytes _ => session) session).trace = session.trace ++ (queueFds queue).map .closeFile := by
    induction queue generalizing session with
    | nil => simp [queueFds]
    | cons segment queue ih =>
      rw [List.foldl_cons, ih]
      cases segment <;> simp [queueFds]
  exact hfold session.server.outQueue session

/-- Whatever happens to a connection, if `open` returns no descriptor that is open: after every event the
files that are open are those of the output queue, each once, and when the connection object has been
destroyed, every file that was opened has been closed exactly once. -/
theorem files_closed_exactly_once (fd : ℕ) (clientIp : Bytes) (services : Services)
    (events : List Event) (hfresh : FreshOpens (run step (new fd clientIp services) events).trace) :
    (run step (new fd clientIp services) events).FilesHeld ∧
      ∀ fileFd, Alternates false
        (fileCalls fileFd (run step (new fd clientIp services) events).closeAllFiles.trace) := by
  have hstep (session : Session) (event : Event)
      (h : FreshOpens session.trace → session.FilesHeld)
      (hfresh : FreshOpens (session.step event).trace) : (session.step event).FilesHeld :=
    (h (hfresh.of_prefix (trace_prefix_step session event))).step event hfresh
  have hstart (_ : FreshOpens (new fd clientIp services).trace) :
      (new fd clientIp services).FilesHeld := OpenFiles.nil
  have hheld := run_invariant_of_forall hstep hstart events hfresh
  refine ⟨hheld, fun fileFd ↦ ?_⟩
  rw [closeAllFiles_trace]
  exact hheld.closeAll.alternates fileFd

/-- A request for a file of three bytes; the headers of the answer are sent, the file is not. -/
def staticRead : Event :=
  .read [.received (lit "GET /static/a HTTP/1.1\r\n\r\n")]
    (fun _ ↦ ⟨id, 0, 0, fun _ ↦ some ⟨9, some ⟨true, 3⟩, fun _ ↦ 65⟩⟩)
    fun i ↦ if i = 0 then ⟨1000, 0⟩ else ⟨-1, eagain⟩

theorem files_closed_staticRead :
    (run step (new 7 [] ⟨⟨∅⟩, .new, .static⟩) [staticRead]).FilesHeld ∧
      Alternates false (fileCalls 9
        (run step (new 7 [] ⟨⟨∅⟩, .new, .static⟩) [staticRead]).closeAllFiles.trace) := by
  have hfresh : FreshOpens (run step (new 7 [] ⟨⟨∅⟩, .new, .static⟩) [staticRead]).trace :=
    freshOpens_of_nodup (by decide +kernel)
  obtain ⟨hheld, hclosed⟩ :=
    files_closed_exactly_once 7 [] ⟨⟨∅⟩, .new, .static⟩ [staticRead] hfresh
  exact ⟨hheld, hclosed 9⟩

example : queueFds (run step (new 7 [] ⟨⟨∅⟩, .new, .static⟩) [staticRead]).server.outQueue = [9] := by
  decide +kernel

end Session

end WebServer
