import WebServer.Connection.Input
import WebServer.Connection.CloseDecision

/-!
# The end of the input stream

A peer that shuts down its write side can still read. The server learns of it when `recv` returns 0,
and closes the connection right there, before it parses what the same event received and before it
sends what is queued. This module says for which runs nothing is lost.
-/

namespace WebServer

open Bytes HttpServer OutSegment Execution Framer

/-! ## The ledger of a connection -/

namespace Session

variable {initial : List OutSegment} {session session' : Session}

theorem Ledger.extends_silent {kind : Action → Prop} (h : session.Ledger initial)
    (hextends : Extends kind session session') (hkind : ∀ action, kind action → action.IsSilent)
    (hqueue : session'.server.outQueue = session.server.outQueue) : session'.Ledger initial := by
  obtain ⟨calls, htrace, hcalls⟩ := hextends
  induction calls using List.reverseRecOn generalizing session' with
  | nil => exact h.of_same (by simpa using htrace) (by rw [hqueue])
  | append_singleton calls action ih =>
    have hbefore : Ledger initial ⟨session.server, session.services, session.trace ++ calls⟩ :=
      ih rfl rfl fun action hmem ↦ hcalls action (List.mem_append_left _ hmem)
    have hemit := hbefore.emit_silent action (hkind action (hcalls action (by simp)))
    exact hemit.of_same (by simp [htrace, List.append_assoc]) (by rw [hqueue]; rfl)

theorem IsInputCall.isSilent {action : Action} (h : IsInputCall action) : action.IsSilent := by
  cases action <;> first | exact ⟨rfl, rfl⟩ | exact absurd h id

theorem IsFileCall.isSilent {action : Action} (h : IsFileCall action) : action.IsSilent := by
  cases action <;> first | exact ⟨rfl, rfl⟩ | exact absurd h id

theorem Ledger.afterRequest (h : session.Ledger initial) (env : Env) (request : HttpRequest)
    (consumed : ℕ) : (session.afterRequest env request consumed).Ledger initial := by
  have hdispatch := h.emit_silent (.dispatch request) ⟨rfl, rfl⟩
  have hcalls : Ledger initial ⟨session.server, session.services,
      session.trace ++ .dispatch request :: (session.nextAnswer env request).calls⟩ :=
    hdispatch.extends_silent
      ⟨(session.nextAnswer env request).calls, by simp, fun action hmem ↦
        isFileCall_of_mem_answer hmem⟩
      (fun _ ↦ IsFileCall.isSilent) rfl
  have hfold (segments : List OutSegment) (s : Session) : segments.foldl Session.enqueue s =
      { s with
        server := { s.server with outQueue := s.server.outQueue ++ segments }
        trace := s.trace ++ segments.map .enqueue } := by
    induction segments generalizing s with
    | nil => simp
    | cons segment segments ih => simp [ih, Session.enqueue, emit]
  have hsegments := hcalls.foldl_enqueue (session.nextAnswer env request).segments
  rw [hfold] at hsegments
  exact hsegments.of_same (by simp) rfl

theorem Ledger.reject (h : session.Ledger initial) (errorCode : ℕ) :
    (session.reject errorCode).Ledger initial :=
  ((h.emit_silent (.reject errorCode) ⟨rfl, rfl⟩).enqueue _).of_same rfl rfl

theorem Ledger.processRequests (h : session.Ledger initial) (envs : ℕ → Env) :
    (session.processRequests envs).Ledger initial := by
  refine processRequests_induct (motive := fun s s' ↦ s.Ledger initial → s'.Ledger initial)
    ?_ ?_ ?_ ?_ ?_ envs session h
  · intro s _ hs
    exact hs
  · intro s errorCode _ hs
    exact hs.reject errorCode
  · intro s env request consumed _ _ hs
    exact hs.afterRequest env request consumed
  · intro s env request consumed _ _ _ hs
    exact ((hs.afterRequest env request consumed).emit_silent
      (.log ..) ⟨rfl, rfl⟩).setServer _ rfl
  · intro s env request consumed s' _ _ _ ih hs
    exact ih (hs.afterRequest env request consumed)

theorem Ledger.recvIntoBuffer (h : session.Ledger initial) (recvs : List RecvResult) :
    (session.recvIntoBuffer recvs).Ledger initial :=
  h.extends_silent (recvIntoBuffer_extends session recvs).1 (fun _ ↦ IsInputCall.isSilent)
    (by rw [recvIntoBuffer_server])

/-- Every event keeps the ledger. -/
theorem Ledger.step (h : session.Ledger initial) (event : Event) :
    (session.step event).Ledger initial := by
  cases event with
  | read recvs envs sends =>
    unfold Session.step handleRead
    dsimp only
    split
    · exact h
    · split
      · exact h.recvIntoBuffer recvs
      · split
        · exact (h.recvIntoBuffer recvs).processRequests envs
        · exact ((h.recvIntoBuffer recvs).processRequests envs).tryFlush sends
  | write sends =>
    unfold Session.step handleWrite
    dsimp only
    split
    · exact h
    · exact h.tryFlush sends
  | close =>
    unfold Session.step
    dsimp only
    split
    · exact h
    · exact h.closeConnection

/-! ## What has been read -/

/-- Until the close decision, the dispatched requests are what was read from the received bytes, and
the buffer holds the rest. -/
structure Account (session : Session) : Prop where
  ledger : session.Ledger []
  reading : session.server.closeAfterFlush = false →
    requestFramer.Reads (received session.trace) (dispatched session.trace) session.server.inBuffer

theorem Account.recvIntoBuffer (h : session.Account) (recvs : List RecvResult) :
    (session.recvIntoBuffer recvs).Account := by
  refine ⟨h.ledger.recvIntoBuffer recvs, fun hundecided ↦ ?_⟩
  rw [recvIntoBuffer_server] at hundecided
  rw [received_recvIntoBuffer, (recvIntoBuffer_input session recvs).1, recvIntoBuffer_server]
  exact (h.reading hundecided).append _

theorem Account.processRequests (h : session.Account) (envs : ℕ → Env) :
    (session.processRequests envs).Account := by
  refine ⟨h.ledger.processRequests envs, fun hundecided ↦ ?_⟩
  obtain ⟨requests, rest, hreads, hend⟩ := processRequests_reads envs session
  cases hend with
  | starved hparse hbuffer hdecided hdispatched hrejected =>
    rw [received_processRequests, hdispatched, hbuffer]
    exact (h.reading (hdecided.symm.trans hundecided)).trans hreads
  | refused code hparse hdecided => exact absurd (hdecided.symm.trans hundecided) (by simp)
  | last request consumed hparse hkeep hdecided =>
    exact absurd (hdecided.symm.trans hundecided) (by simp)
  | full hdecided => exact absurd (hdecided.symm.trans hundecided) (by simp)

theorem Account.tryFlush (h : session.Account) (results : ℕ → SysResult) :
    (session.tryFlush results).Account := by
  refine ⟨h.ledger.tryFlush results, fun hundecided ↦ ?_⟩
  obtain ⟨hdispatched, -, hreceived⟩ := tryFlush_input results session
  obtain ⟨queue, registered, closed, hserver⟩ := (tryFlush_flushed results session).server
  rw [hserver] at hundecided
  rw [hdispatched, hreceived, hserver]
  exact h.reading hundecided

theorem Account.step (h : session.Account) (event : Event) : (session.step event).Account := by
  cases event with
  | read recvs envs sends =>
    unfold Session.step handleRead
    dsimp only
    split
    · exact h
    · split
      · exact h.recvIntoBuffer recvs
      · split
        · exact (h.recvIntoBuffer recvs).processRequests envs
        · exact ((h.recvIntoBuffer recvs).processRequests envs).tryFlush sends
  | write sends =>
    unfold Session.step handleWrite
    dsimp only
    split
    · exact h
    · exact h.tryFlush sends
  | close =>
    unfold Session.step
    dsimp only
    split
    · exact h
    · refine ⟨h.ledger.closeConnection, fun hundecided ↦ ?_⟩
      have hsilent : ∀ action ∈ [Action.closeConnection], action.IsInputSilent :=
        List.forall_mem_singleton.mpr ⟨rfl, rfl, rfl⟩
      obtain ⟨hdispatched, -, hreceived⟩ := input_of_silent hsilent
      rw [closeConnection_trace, received_append, dispatched_append, hdispatched, hreceived,
        List.append_nil, List.append_nil]
      exact h.reading hundecided

theorem account_new (fd : ℕ) (clientIp : Bytes) (services : Services) :
    (new fd clientIp services).Account :=
  ⟨ledger_start (HttpServer.new fd clientIp) services, fun _ ↦ .refl []⟩

end Session

/-! ## What is owed to the peer -/

/-- The complete keep-alive requests of a stream. -/
def keepAliveRequests (stream : Bytes) : List HttpRequest :=
  (requestFramer.drain stream).messages.filter (·.keepAlive)

/-- Not the answer to a last request and not a refusal. -/
def Action.answersKeepAlive : Action → Bool
  | dispatch request => request.keepAlive
  | reject _ => false
  | _ => true

/-- The part of a trace in which only keep-alive requests are answered. -/
def keepAlivePart (trace : List Action) : List Action := trace.takeWhile Action.answersKeepAlive

/-- The part of a trace from the answer to a last request or a refusal on. -/
def finalPart (trace : List Action) : List Action := trace.dropWhile Action.answersKeepAlive

def startsWithKeepAlive (text : Bytes) : Bool :=
  match HttpRequest.parse text with
  | .ok request _ => request.keepAlive
  | _ => false

theorem keepAliveRequests_eq_nil_iff {text : Bytes} :
    keepAliveRequests text = [] ↔ startsWithKeepAlive text = false := by
  have hrefl : requestFramer.Reads text [] text := .refl text
  unfold keepAliveRequests startsWithKeepAlive
  cases hparse : HttpRequest.parse text with
  | needMore => simp [hrefl.drain_of_needMore hparse]
  | error code => simp [hrefl.drain_of_error hparse]
  | ok request consumed =>
    cases hkeep : request.keepAlive with
    | false =>
      have hfinal : requestFramer.final request = true := by simp [requestFramer, hkeep]
      simp [hrefl.drain_of_final hparse hfinal, hkeep]
    | true =>
      have hfinal : requestFramer.final request = false := by simp [requestFramer, hkeep]
      have hone : requestFramer.Reads text [request] (text.drop consumed) :=
        hrefl.snoc hparse hfinal
      simp [hone.drain_messages, hkeep]

namespace Session

variable {session : Session}

/-- When the end of the stream closes the connection, all complete keep-alive requests of the received
bytes have been dispatched, unless the connection was to be closed anyway, and the kernel has accepted
all that was queued for keep-alive requests. -/
def LosesNothing (session : Session) : Event → Prop
  | .read recvs envs sends => session.server.closed = false →
      (recvScan session.server.inBuffer.length recvs).2 = .endOfStream →
      (session.server.closeAfterFlush = false →
        dispatched (session.step (.read recvs envs sends)).trace =
          keepAliveRequests (received (session.step (.read recvs envs sends)).trace)) ∧
      queued (keepAlivePart (session.step (.read recvs envs sends)).trace) <+:
        accepted (session.step (.read recvs envs sends)).trace
  | _ => True

/-- The end of the stream finds no keep-alive request at the front of the buffer, unless the
connection was to be closed anyway, and no more unsent output than was queued for a last request or a
refusal. -/
def NothingPending (session : Session) : Event → Prop
  | .read recvs _ _ => session.server.closed = false →
      (recvScan session.server.inBuffer.length recvs).2 = .endOfStream →
      (session.server.closeAfterFlush = false →
        startsWithKeepAlive (session.server.inBuffer ++
          (recvScan session.server.inBuffer.length recvs).1) = false) ∧
      (denoteQueue session.server.outQueue).length ≤ (queued (finalPart session.trace)).length
  | _ => True

instance (session : Session) : DecidablePred session.NothingPending
  | .read .. => inferInstanceAs (Decidable (_ → _ → _ ∧ _))
  | .write _ | .close => inferInstanceAs (Decidable True)

theorem Account.dispatched_eq_iff (h : session.Account)
    (hundecided : session.server.closeAfterFlush = false) :
    dispatched session.trace = keepAliveRequests (received session.trace) ↔
      startsWithKeepAlive session.server.inBuffer = false := by
  have hreads := h.reading hundecided
  have hkept : (dispatched session.trace).filter (·.keepAlive) = dispatched session.trace := by
    refine List.filter_eq_self.mpr fun request hmem ↦ ?_
    simpa [requestFramer] using hreads.final_eq_false request hmem
  have hsplit : keepAliveRequests (received session.trace) =
      dispatched session.trace ++ keepAliveRequests session.server.inBuffer := by
    rw [keepAliveRequests, hreads.drain_messages, List.filter_append, hkept, keepAliveRequests]
  rw [hsplit, List.self_eq_append_right, keepAliveRequests_eq_nil_iff]

/-- What was queued for keep-alive requests has been accepted exactly if no more is unsent than was
queued behind it. -/
theorem Ledger.keepAlive_accepted_iff (h : session.Ledger []) :
    queued (keepAlivePart session.trace) <+: accepted session.trace ↔
      (denoteQueue session.server.outQueue).length ≤ (queued (finalPart session.trace)).length := by
  have hsplit : queued session.trace =
      queued (keepAlivePart session.trace) ++ queued (finalPart session.trace) := by
    rw [← queued_append, keepAlivePart, finalPart, List.takeWhile_append_dropWhile]
  have hbalanced : accepted session.trace ++ denoteQueue session.server.outQueue =
      queued session.trace := h.balanced
  have hlen := congrArg List.length (hbalanced.trans hsplit)
  rw [List.length_append, List.length_append] at hlen
  constructor
  · intro hpre
    have := hpre.length_le
    omega
  · intro hle
    exact List.prefix_of_prefix_length_le ⟨_, hsplit.symm⟩ ⟨_, hbalanced⟩ (by omega)

/-- Calls that answer and queue nothing do not change what was queued for the final part. -/
theorem queued_finalPart_append {trace calls : List Action}
    (hkeep : ∀ action ∈ calls, action.answersKeepAlive = true) (hsilent : queued calls = []) :
    queued (finalPart (trace ++ calls)) = queued (finalPart trace) := by
  have hcalls : calls.dropWhile Action.answersKeepAlive = [] :=
    List.dropWhile_eq_nil_iff.mpr hkeep
  unfold finalPart
  rw [List.dropWhile_append, hcalls]
  split
  · rename_i hnil
    rw [List.isEmpty_iff.mp hnil]
  · rw [queued_append, hsilent, List.append_nil]

theorem losesNothing_iff (h : session.Account) (event : Event) :
    session.LosesNothing event ↔ session.NothingPending event := by
  cases event with
  | write sends => exact Iff.rfl
  | close => exact Iff.rfl
  | read recvs envs sends =>
    refine forall_congr' fun hopen ↦ forall_congr' fun hend ↦ ?_
    have hstep : session.step (.read recvs envs sends) = session.recvIntoBuffer recvs :=
      handleRead_of_not_drained envs sends hopen (by simp [hend])
    have haccount := h.recvIntoBuffer recvs
    have hserver := recvIntoBuffer_server session recvs
    obtain ⟨calls, htrace, hcalls⟩ := (recvIntoBuffer_extends session recvs).1
    have hkeep : ∀ action ∈ calls, action.answersKeepAlive = true := by
      intro action hmem
      have hkind := hcalls action hmem
      cases action <;> first | rfl | exact absurd hkind id
    have hsilent : queued calls = [] :=
      queued_of_silent fun action hmem ↦ (hcalls action hmem).isSilent
    rw [hstep, haccount.ledger.keepAlive_accepted_iff]
    refine and_congr (forall_congr' fun hundecided ↦ ?_) ?_
    · rw [haccount.dispatched_eq_iff (by rw [hserver]; exact hundecided), hserver]
    · rw [hserver, htrace, queued_finalPart_append hkeep hsilent]

/-- A run loses nothing at the end of the input stream exactly when the end finds neither a complete
keep-alive request in the buffer nor unsent output for one. -/
theorem half_close_loses_nothing (fd : ℕ) (clientIp : Bytes) (services : Services)
    (events : List Event) :
    Always step LosesNothing (new fd clientIp services) events ↔
      Always step NothingPending (new fd clientIp services) events :=
  always_congr Account (fun _ event h ↦ h.step event)
    (fun _ event h ↦ losesNothing_iff h event) (account_new fd clientIp services) events

/-- A read event with the given pieces of input and results of `send`. -/
def scriptedRead (pieces : List Bytes) (result : SysResult) : Event :=
  .read (pieces.map .received) (fun _ ↦ ⟨id, 0, 0, fun _ ↦ none⟩) (fun _ ↦ result)

/-- A request is lost when the end of the stream is seen in the same event, and its answer is lost
when the end is seen while the socket takes no output. -/
theorem half_close_loses_request :
    ¬ Always step LosesNothing (new 7 (lit "10.0.0.1") ⟨⟨∅⟩, .new, .static⟩)
      [scriptedRead [lit "GET / HTTP/1.1\r\n\r\n", []] ⟨65536, 0⟩] ∧
    ¬ Always step LosesNothing (new 7 (lit "10.0.0.1") ⟨⟨∅⟩, .new, .static⟩)
      [scriptedRead [lit "GET / HTTP/1.1\r\n\r\n"] ⟨-1, eagain⟩, scriptedRead [[]] ⟨65536, 0⟩] := by
  have hiff (events : List Event) := always_congr Account
    (fun _ event h ↦ h.step event) (fun _ event h ↦ losesNothing_iff h event)
    (account_new 7 (lit "10.0.0.1") ⟨⟨∅⟩, .new, .static⟩) events
  rw [hiff, hiff]
  decide +kernel

end Session

end WebServer
