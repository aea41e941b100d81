import WebServer.Connection.Events

/-!
# Output is sent exactly once and in order

The output of a connection is a ledger: the bytes the kernel has accepted, followed by the bytes the
queue stands for, are the bytes that were ever queued. Appending a segment adds to both sides, a
successful `send` or `sendfile` moves bytes from the queue to the accepted ones, and nothing else
touches either. A partly erased string and a file offset are the two forms of a half-sent segment.
-/

namespace WebServer

open Bytes HttpServer OutSegment Execution

/-! ## Accounts -/

namespace Action

/-- The bytes the kernel accepted in a call. -/
def acceptedBytes : Action → Bytes
  | send _ accepted => accepted
  | sendfile _ _ accepted => accepted
  | _ => []

def queuedSegment : Action → Option OutSegment
  | enqueue segment => some segment
  | _ => none

/-- A `send` or `sendfile` that failed for another reason than a full socket. -/
def IsSendError : Action → Prop
  | send result _ => result.ret ≤ 0 ∧ result.wouldBlock = false
  | sendfile result _ _ => result.ret ≤ 0 ∧ result.wouldBlock = false
  | _ => False

end Action

def accepted (trace : List Action) : Bytes := trace.flatMap Action.acceptedBytes

/-- The bytes of all segments queued in a trace, in queue order. -/
def queued (trace : List Action) : Bytes := denoteQueue (trace.filterMap Action.queuedSegment)

@[simp]
theorem accepted_append (first second : List Action) :
    accepted (first ++ second) = accepted first ++ accepted second := List.flatMap_append

@[simp]
theorem accepted_nil : accepted [] = [] := rfl

@[simp]
theorem accepted_cons (action : Action) (trace : List Action) :
    accepted (action :: trace) = action.acceptedBytes ++ accepted trace := List.flatMap_cons

theorem accepted_singleton (action : Action) : accepted [action] = action.acceptedBytes := by
  simp

@[simp] theorem Action.acceptedBytes_log (level : LogLevel) (message : Bytes) :
    (log level message).acceptedBytes = [] := rfl
@[simp] theorem Action.acceptedBytes_closeConnection : closeConnection.acceptedBytes = [] := rfl
@[simp] theorem Action.acceptedBytes_updateEvents (events : EpollEvents) :
    (updateEvents events).acceptedBytes = [] := rfl

@[simp]
theorem denoteQueue_nil : denoteQueue [] = [] := rfl

@[simp]
theorem denoteQueue_cons (segment : OutSegment) (queue : List OutSegment) :
    denoteQueue (segment :: queue) = segment.denote ++ denoteQueue queue := rfl

@[simp]
theorem denoteQueue_append (first second : List OutSegment) :
    denoteQueue (first ++ second) = denoteQueue first ++ denoteQueue second :=
  List.flatMap_append

@[simp]
theorem queued_append (first second : List Action) :
    queued (first ++ second) = queued first ++ queued second := by
  simp [queued, List.filterMap_append]

@[simp]
theorem queued_singleton_enqueue (segment : OutSegment) :
    queued [.enqueue segment] = segment.denote := by
  simp [queued, Action.queuedSegment]

theorem queued_singleton_of_none (action : Action) (h : action.queuedSegment = none) :
    queued [action] = [] := by
  simp [queued, h]

theorem queued_map_enqueue (segments : List OutSegment) :
    queued (segments.map .enqueue) = denoteQueue segments := by
  simp [queued, List.filterMap_map, Function.comp_def, Action.queuedSegment]

/-- A call that neither moves output nor queues any. -/
def Action.IsSilent (action : Action) : Prop :=
  action.acceptedBytes = [] ∧ action.queuedSegment = none

theorem queued_of_silent {calls : List Action} (h : ∀ action ∈ calls, action.IsSilent) :
    queued calls = [] := by
  have hnone : calls.filterMap Action.queuedSegment = [] := by
    rw [List.filterMap_eq_nil_iff]
    exact fun action hmem ↦ (h action hmem).2
  rw [queued, hnone, denoteQueue_nil]

/-- What the half-sent part of a file contributes and what is left of it. -/
theorem fileBytes_add (content : ℕ → Byte) (offset first second : ℕ) :
    fileBytes content offset (first + second) =
      fileBytes content offset first ++ fileBytes content (offset + first) second := by
  simp only [fileBytes, List.range_add, List.map_append, List.map_map]
  congr 1
  refine List.map_congr_left fun i _ ↦ ?_
  simp only [Function.comp_apply, Nat.add_assoc]

namespace Session

/-! ## The ledger -/

/-- Accepted bytes and queue together are the initial queue and everything queued since. -/
def Balanced (initial : List OutSegment) (session : Session) : Prop :=
  accepted session.trace ++ denoteQueue session.server.outQueue =
    denoteQueue initial ++ queued session.trace

/-- At every moment of the trace the accepted bytes are a prefix of what had been queued by then. -/
def InOrder (initial : List OutSegment) (session : Session) : Prop :=
  ∀ moment, moment <+: session.trace → accepted moment <+: denoteQueue initial ++ queued moment

/-- The ledger of a connection that started with the segments `initial` queued. -/
structure Ledger (initial : List OutSegment) (session : Session) : Prop where
  balanced : session.Balanced initial
  inOrder : session.InOrder initial

variable {initial : List OutSegment} {session session' : Session}

theorem Balanced.accepted_prefix (h : session.Balanced initial) :
    accepted session.trace <+: denoteQueue initial ++ queued session.trace :=
  ⟨_, h⟩

/-- One more call keeps the accepted bytes in order when the accounts balance after it. -/
theorem InOrder.snoc (h : session.InOrder initial) {action : Action}
    (htrace : session'.trace = session.trace ++ [action]) (hbalanced : session'.Balanced initial) :
    session'.InOrder initial := by
  intro moment hmoment
  rw [htrace, List.prefix_concat_iff] at hmoment
  rcases hmoment with rfl | hbefore
  · rw [← htrace]
    exact hbalanced.accepted_prefix
  · exact h moment hbefore

theorem Ledger.of_same (h : session.Ledger initial) (htrace : session'.trace = session.trace)
    (hqueue : denoteQueue session'.server.outQueue = denoteQueue session.server.outQueue) :
    session'.Ledger initial where
  balanced := by
    rw [Balanced, htrace, hqueue]
    exact h.balanced
  inOrder := by
    rw [InOrder, htrace]
    exact h.inOrder

theorem Ledger.snoc (h : session.Ledger initial) {action : Action}
    (htrace : session'.trace = session.trace ++ [action]) (hbalanced : session'.Balanced initial) :
    session'.Ledger initial :=
  ⟨hbalanced, h.inOrder.snoc htrace hbalanced⟩

theorem Ledger.emit_silent (h : session.Ledger initial) (action : Action)
    (hsilent : action.IsSilent) : (session.emit action).Ledger initial := by
  refine h.snoc rfl ?_
  have hbalanced := h.balanced
  unfold Balanced at hbalanced ⊢
  simp only [emit_trace, emit_server, accepted_append, accepted_singleton, hsilent.1,
    List.append_nil, queued_append, queued_singleton_of_none action hsilent.2]
  exact hbalanced

theorem Ledger.setServer (h : session.Ledger initial) (server : HttpServer)
    (hqueue : denoteQueue server.outQueue = denoteQueue session.server.outQueue) :
    (session.setServer server).Ledger initial :=
  h.of_same rfl hqueue

theorem Ledger.enqueue (h : session.Ledger initial) (segment : OutSegment) :
    (session.enqueue segment).Ledger initial := by
  refine h.snoc rfl ?_
  have hbalanced := h.balanced
  unfold Balanced at hbalanced ⊢
  simp only [Session.enqueue, emit_trace, emit_server, setServer_trace, setServer_server,
    accepted_append, accepted_singleton, Action.acceptedBytes, List.append_nil, queued_append,
    queued_singleton_enqueue, denoteQueue_append, denoteQueue_cons, denoteQueue_nil]
  rw [← List.append_assoc, hbalanced, List.append_assoc]

/-! ## Flushing keeps the ledger -/

/-- A turn of the flush moves bytes from the front of the queue to the accepted ones. -/
theorem FlushStep.conserves (h : FlushStep session session') :
    accepted session'.trace ++ denoteQueue session'.server.outQueue =
      accepted session.trace ++ denoteQueue session.server.outQueue ∧
    queued session'.trace = queued session.trace := by
  cases h with
  | popBytes hqueue => simp [setQueue, hqueue, denote]
  | send result n hqueue hpos hle =>
    simp only [setQueue, hqueue, emit_trace, emit_server, setServer_trace, setServer_server,
      accepted_append, accepted_singleton, Action.acceptedBytes, queued_append,
      queued_singleton_of_none (.send result _) rfl, denoteQueue_cons, denote,
      List.append_nil, and_true]
    rw [List.append_assoc, ← List.append_assoc (List.take n _), List.take_append_drop]
  | popFile hqueue =>
    simp [setQueue, hqueue, denote, Action.acceptedBytes, fileBytes,
      queued_singleton_of_none (.closeFile _) rfl]
  | @sendfile queue fileFd fileOffset fileRemaining content result n hqueue hpos hle =>
    have hfile : fileBytes content fileOffset n ++
        fileBytes content (fileOffset + n) (fileRemaining - n) =
        fileBytes content fileOffset fileRemaining := by
      rw [← fileBytes_add, Nat.add_sub_cancel' hle]
    simp only [setQueue, hqueue, emit_trace, emit_server, setServer_trace, setServer_server,
      accepted_append, accepted_singleton, Action.acceptedBytes, queued_append,
      queued_singleton_of_none (.sendfile result _ _) rfl, denoteQueue_cons, denote,
      List.append_nil, and_true]
    rw [List.append_assoc, ← List.append_assoc (fileBytes content fileOffset n), hfile]

theorem FlushStep.trace_eq (h : FlushStep session session') :
    session'.trace = session.trace ∨ ∃ action, session'.trace = session.trace ++ [action] := by
  cases h with
  | popBytes hqueue => exact .inl rfl
  | send result n hqueue hpos hle => exact .inr ⟨_, rfl⟩
  | popFile hqueue => exact .inr ⟨_, rfl⟩
  | sendfile result n hqueue hpos hle => exact .inr ⟨_, rfl⟩

theorem Ledger.flushStep (h : session.Ledger initial) (hstep : FlushStep session session') :
    session'.Ledger initial := by
  obtain ⟨hconserve, hqueued⟩ := hstep.conserves
  have hbalanced : session'.Balanced initial := by
    rw [Balanced, hconserve, hqueued]
    exact h.balanced
  rcases hstep.trace_eq with htrace | ⟨action, htrace⟩
  · refine ⟨hbalanced, ?_⟩
    rw [InOrder, htrace]
    exact h.inOrder
  · exact h.snoc htrace hbalanced

theorem Ledger.closeConnection (h : session.Ledger initial) :
    session.closeConnection.Ledger initial :=
  (h.setServer { session.server with closed := true } rfl).emit_silent
    .closeConnection ⟨rfl, rfl⟩

theorem IsIdleCall.silent {result : SysResult} {action : Action} (h : IsIdleCall result action) :
    action.IsSilent := by
  rcases h with rfl | ⟨fileFd, rfl⟩ <;> exact ⟨rfl, rfl⟩

theorem Ledger.registerWrite (h : session.Ledger initial) :
    session.registerWrite.Ledger initial := by
  unfold Session.registerWrite
  split
  · exact h
  · exact (h.setServer { session.server with writeRegistered := true } rfl).emit_silent
      (.updateEvents _) ⟨rfl, rfl⟩

theorem Ledger.finishFlush (h : session.Ledger initial) : session.finishFlush.Ledger initial := by
  have hunregister : session.unregisterWrite.Ledger initial := by
    unfold Session.unregisterWrite
    split
    · exact (h.setServer { session.server with writeRegistered := false } rfl).emit_silent
        (.updateEvents _) ⟨rfl, rfl⟩
    · exact h
  rw [finishFlush_eq]
  split
  · exact hunregister.closeConnection
  · exact hunregister

theorem Ledger.flushEnd (h : session.Ledger initial) (hend : FlushEnd session session') :
    session'.Ledger initial := by
  cases hend with
  | drained hqueue => exact h.finishFlush
  | blocked result action hqueue hcall hblock =>
    exact (h.emit_silent action hcall.silent).registerWrite
  | failed result action message hqueue hcall hret hblock =>
    exact ((h.emit_silent action hcall.silent).emit_silent (.log ..) ⟨rfl, rfl⟩).closeConnection

theorem Ledger.tryFlush (h : session.Ledger initial) (results : ℕ → SysResult) :
    (session.tryFlush results).Ledger initial := by
  refine tryFlush_induct (motive := fun s s' ↦ s.Ledger initial → s'.Ledger initial)
    ?_ ?_ results session h
  · intro s s' hend hs
    exact hs.flushEnd hend
  · intro s next s' hstep ih hs
    exact ih (hs.flushStep hstep)

/-! ## Closing -/

/-- A flush that closes the connection has met an error, or has sent the whole queue at the request
of `_closeAfterFlush`. -/
theorem tryFlush_closed (results : ℕ → SysResult) (session : Session)
    (hopen : session.server.closed = false)
    (hclosed : (session.tryFlush results).server.closed = true) :
    (∃ action ∈ (session.tryFlush results).trace, action.IsSendError) ∨
      ((session.tryFlush results).server.outQueue = [] ∧
        (session.tryFlush results).server.closeAfterFlush = true) := by
  refine tryFlush_induct (motive := fun s s' ↦ s.server.closed = false →
    s'.server.closed = true → (∃ action ∈ s'.trace, action.IsSendError) ∨
      (s'.server.outQueue = [] ∧ s'.server.closeAfterFlush = true)) ?_ ?_ results session
    hopen hclosed
  · intro s s' hend hs hs'
    cases hend with
    | drained hqueue =>
      refine .inr ?_
      rw [finishFlush_server] at hs' ⊢
      exact ⟨hqueue, by simpa [hs] using hs'⟩
    | blocked result action hqueue hcall hblock =>
      simp [hs] at hs'
    | failed result action message hqueue hcall hret hblock =>
      refine .inl ⟨action, by simp, ?_⟩
      rcases hcall with rfl | ⟨fileFd, rfl⟩ <;> exact ⟨hret, hblock⟩
  · intro s next s' hstep ih hs
    refine ih ?_
    cases hstep <;> exact hs

end Session

/-! ## Runs of appends and flushes -/

/-- What reaches the output side of a connection: segments queued between events, possibly with the
decision to close, and events that flush. -/
inductive OutputOp where
  | append (segments : List OutSegment) (close : Bool)
  | flush (results : ℕ → SysResult)

namespace Session

variable {initial : List OutSegment} {session session' : Session}

def outputStep (session : Session) : OutputOp → Session
  | .append segments close =>
    let session := segments.foldl enqueue session
    session.setServer
      { session.server with closeAfterFlush := session.server.closeAfterFlush || close }
  | .flush results => session.handleWrite results

theorem Ledger.foldl_enqueue (h : session.Ledger initial) (segments : List OutSegment) :
    (segments.foldl Session.enqueue session).Ledger initial := by
  induction segments generalizing session with
  | nil => exact h
  | cons segment segments ih => exact ih (h.enqueue segment)

theorem Ledger.outputStep (h : session.Ledger initial) (op : OutputOp) :
    (session.outputStep op).Ledger initial := by
  cases op with
  | append segments close => exact (h.foldl_enqueue segments).of_same rfl rfl
  | flush results =>
    unfold Session.outputStep handleWrite
    dsimp only
    split
    · exact h
    · exact h.tryFlush results

theorem closed_foldl_enqueue (segments : List OutSegment) (session : Session) :
    (segments.foldl Session.enqueue session).server.closed = session.server.closed := by
  induction segments generalizing session with
  | nil => rfl
  | cons segment segments ih => exact ih (session.enqueue segment)

theorem ledger_start (server : HttpServer) (services : Services) :
    Ledger server.outQueue ⟨server, services, []⟩ where
  balanced := by simp [Balanced, accepted, queued]
  inOrder := by
    intro moment hmoment
    obtain rfl := List.prefix_nil.mp hmoment
    simp [accepted]

/-- Whatever is queued, appended and answered by the kernel: at every moment the accepted bytes are a
prefix of all bytes queued by then, in queue order; while the connection is open the queue stands for
exactly the rest; and a step that closes the connection without a send error has sent all of them. -/
theorem output_exactly_once (server : HttpServer) (services : Services) (ops : List OutputOp) :
    (∀ moment, moment <+: (run outputStep ⟨server, services, []⟩ ops).trace →
      accepted moment <+: denoteQueue server.outQueue ++ queued moment) ∧
    ((run outputStep ⟨server, services, []⟩ ops).server.closed = false →
      accepted (run outputStep ⟨server, services, []⟩ ops).trace ++
          denoteQueue (run outputStep ⟨server, services, []⟩ ops).server.outQueue =
        denoteQueue server.outQueue ++
          queued (run outputStep ⟨server, services, []⟩ ops).trace) ∧
    ∀ op, (run outputStep ⟨server, services, []⟩ ops).server.closed = false →
      (run outputStep ⟨server, services, []⟩ (ops ++ [op])).server.closed = true →
      (∃ action ∈ (run outputStep ⟨server, services, []⟩ (ops ++ [op])).trace,
        action.IsSendError) ∨
      ((run outputStep ⟨server, services, []⟩ (ops ++ [op])).server.closeAfterFlush = true ∧
        accepted (run outputStep ⟨server, services, []⟩ (ops ++ [op])).trace =
          denoteQueue server.outQueue ++
            queued (run outputStep ⟨server, services, []⟩ (ops ++ [op])).trace) := by
  have hledger (ops : List OutputOp) :
      (run outputStep ⟨server, services, []⟩ ops).Ledger server.outQueue :=
    run_invariant_of_forall (fun s op hs ↦ hs.outputStep op) (ledger_start server services) ops
  refine ⟨(hledger ops).inOrder, fun _ ↦ (hledger ops).balanced, fun op hopen hclosed ↦ ?_⟩
  have hbalanced := (hledger (ops ++ [op])).balanced
  rw [run_append] at hclosed hbalanced ⊢
  generalize run outputStep ⟨server, services, []⟩ ops = session at hopen hclosed hbalanced ⊢
  cases op with
  | append segments close =>
    have hsame : (session.outputStep (.append segments close)).server.closed =
        session.server.closed := closed_foldl_enqueue segments session
    exact absurd ((hsame.trans hopen).symm.trans hclosed) (by simp)
  | flush results =>
    have hflush : run outputStep session [.flush results] = session.tryFlush results := by
      simp [outputStep, handleWrite, hopen]
    rw [hflush] at hclosed hbalanced ⊢
    rcases tryFlush_closed results session hopen hclosed with herror | ⟨hqueue, hcaf⟩
    · exact .inl herror
    · refine .inr ⟨hcaf, ?_⟩
      rw [Balanced, hqueue, denoteQueue_nil, List.append_nil] at hbalanced
      exact hbalanced

end Session

end WebServer
