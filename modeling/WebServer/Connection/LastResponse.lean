import WebServer.Connection.CloseDecision
import WebServer.Connection.ConnectionHeader

/-!
# The last response of a connection

A response that says `close` announces that nothing will be answered after it. `processRequests` returns
after such a response, but a read event that arrives while the flush is blocked enters it again. So the
headers of a run are true if every turn tells the truth about the close decision, and if every read event
that finds the decision taken leaves nothing to answer.
-/

namespace WebServer

open Bytes HttpServer OutSegment HttpResponse Execution

namespace Session

/-! ## The turns of a run -/

/-- The turns of `processRequests` in a run, with the session and the environments each begins with. -/
def turnsAlong : Session → List Event → List (Session × (ℕ → Env))
  | _, [] => []
  | session, event :: events => session.turnsOf event ++ turnsAlong (session.step event) events

/-- The turn makes no call: it dispatches nothing, refuses nothing and queues nothing. -/
def Silent (turn : Session × (ℕ → Env)) : Prop := turnCalls (turn.2 0) turn.1 = []

/-- A run queues what its turns queue, in order. -/
theorem queuedSegments_run (session : Session) (events : List Event) :
    queuedSegments (run step session events).trace = queuedSegments session.trace ++
      (turnsAlong session events).flatMap fun turn ↦ turnSegments (turn.2 0) turn.1 := by
  induction events generalizing session with
  | nil => simp [turnsAlong]
  | cons event events ih =>
    rw [run_cons, ih, queuedSegments_step, turnsAlong, List.flatMap_append, List.append_assoc]

theorem silent_iff (turn : Session × (ℕ → Env)) :
    Silent turn ↔ HttpRequest.parse turn.1.server.inBuffer = .needMore := by
  unfold Silent
  cases hparse : HttpRequest.parse turn.1.server.inBuffer with
  | needMore => exact iff_of_true (turnCalls_of_needMore _ hparse) rfl
  | error errorCode => simp [turnCalls_of_error _ hparse]
  | ok request consumed =>
    obtain ⟨warnings, hcalls, -⟩ := turnCalls_of_ok (turn.2 0) hparse
    simp [hcalls]

/-! ## The close decision along the turns -/

/-- The turns of a call begin with the decision that the call found. -/
theorem decided_visited (envs : ℕ → Env) (session : Session) :
    ∀ turn ∈ processLoop.visited (session, envs),
      turn.1.server.closeAfterFlush = session.server.closeAfterFlush := by
  refine processLoop.run_induct (motive := fun state _ ↦ ∀ turn ∈ processLoop.visited state,
    turn.1.server.closeAfterFlush = state.1.server.closeAfterFlush) ?_ ?_ (session, envs)
  · intro state result hbody
    simp [processLoop.visited_of_exit hbody]
  · rintro ⟨session, envs⟩ next result hbody ih
    rw [processLoop.visited_of_next hbody, List.forall_mem_cons]
    refine ⟨rfl, fun turn hmem ↦ ?_⟩
    exact (ih turn hmem).trans (closeAfterFlush_of_next (envs 0) (processTurn_of_next hbody))

/-- Only the last turn of a call takes a decision that the call did not find. -/
theorem closes_visited (envs : ℕ → Env) (session : Session) :
    (processLoop.visited (session, envs)).Pairwise fun turn _ ↦
      closes (turn.2 0) turn.1 = turn.1.server.closeAfterFlush := by
  refine processLoop.run_induct (motive := fun state _ ↦ (processLoop.visited state).Pairwise
    fun turn _ ↦ closes (turn.2 0) turn.1 = turn.1.server.closeAfterFlush) ?_ ?_ (session, envs)
  · intro state result hbody
    simp [processLoop.visited_of_exit hbody]
  · rintro ⟨session, envs⟩ next result hbody ih
    have hturn := processTurn_of_next hbody
    have hcloses : closes (envs 0) session = session.server.closeAfterFlush := by
      rw [closes, hturn]
      exact closeAfterFlush_of_next (envs 0) hturn
    rw [processLoop.visited_of_next hbody]
    exact ih.cons fun _ _ ↦ hcloses

/-- A call leaves the decision taken if it found it taken, or if one of its turns takes it. -/
theorem decided_processRequests (envs : ℕ → Env) (session : Session) :
    (session.processRequests envs).server.closeAfterFlush = true ↔
      session.server.closeAfterFlush = true ∨
        ∃ turn ∈ processLoop.visited (session, envs), closes (turn.2 0) turn.1 = true := by
  refine processLoop.run_induct (motive := fun state result ↦
    result.server.closeAfterFlush = true ↔ state.1.server.closeAfterFlush = true ∨
      ∃ turn ∈ processLoop.visited state, closes (turn.2 0) turn.1 = true) ?_ ?_ (session, envs)
  · rintro ⟨session, envs⟩ result hbody
    have hcloses : closes (envs 0) session = result.server.closeAfterFlush := by
      rw [closes, processTurn_of_exit hbody]
    rw [processLoop.visited_of_exit hbody]
    simp only [List.mem_singleton, exists_eq_left, hcloses]
    refine ⟨.inr, fun h ↦ h.elim (fun hdecided ↦ ?_) id⟩
    rw [← hcloses]
    exact closes_of_decided (envs 0) hdecided
  · rintro ⟨session, envs⟩ next result hbody ih
    have hturn := processTurn_of_next hbody
    have hnext := closeAfterFlush_of_next (envs 0) hturn
    have hcloses : closes (envs 0) session = next.1.server.closeAfterFlush := by
      rw [closes, hturn]
    rw [processLoop.visited_of_next hbody, ih]
    simp only [List.mem_cons, exists_eq_or_imp, hcloses, hnext]
    tauto

/-! ## The turns of an event -/

theorem turnsOf_of_drained {session : Session} {recvs : List RecvResult} (envs : ℕ → Env)
    (sends : ℕ → SysResult) (hopen : session.server.closed = false)
    (hdrained : (recvScan session.server.inBuffer.length recvs).2 = .drained) :
    session.turnsOf (.read recvs envs sends) =
      processLoop.visited (session.recvIntoBuffer recvs, envs) := by
  simp [turnsOf, hopen, recvIntoBuffer_server, hdrained]

theorem turnsOf_of_not_drained {session : Session} {recvs : List RecvResult} (envs : ℕ → Env)
    (sends : ℕ → SysResult) (h : session.server.closed = true ∨
      (recvScan session.server.inBuffer.length recvs).2 ≠ .drained) :
    session.turnsOf (.read recvs envs sends) = [] := by
  simp only [turnsOf, recvIntoBuffer_server]
  grind

theorem decided_recvIntoBuffer (session : Session) (recvs : List RecvResult) :
    (session.recvIntoBuffer recvs).server.closeAfterFlush = session.server.closeAfterFlush := by
  rw [recvIntoBuffer_server]

theorem decided_tryFlush (results : ℕ → SysResult) (session : Session) :
    (session.tryFlush results).server.closeAfterFlush = session.server.closeAfterFlush := by
  obtain ⟨queue, registered, closed, hserver⟩ := (tryFlush_flushed results session).server
  rw [hserver]

/-- What the turns of an event are: those of one call of `processRequests`, or none. -/
theorem turnsOf_cases (session : Session) (event : Event) :
    (session.turnsOf event = [] ∧
        (session.step event).server.closeAfterFlush = session.server.closeAfterFlush) ∨
      ∃ recvs envs sends, event = .read recvs envs sends ∧ session.server.closed = false ∧
        (recvScan session.server.inBuffer.length recvs).2 = .drained ∧
        session.turnsOf event = processLoop.visited (session.recvIntoBuffer recvs, envs) ∧
        (session.step event).server.closeAfterFlush =
          ((session.recvIntoBuffer recvs).processRequests envs).server.closeAfterFlush := by
  cases event with
  | read recvs envs sends =>
    unfold step
    dsimp only
    cases hopen : session.server.closed with
    | true =>
      rw [handleRead_of_closed envs sends hopen]
      exact .inl ⟨turnsOf_of_not_drained envs sends (.inl hopen), rfl⟩
    | false =>
      by_cases hdrained : (recvScan session.server.inBuffer.length recvs).2 = .drained
      · rw [handleRead_of_drained envs sends hopen hdrained, decided_tryFlush]
        exact .inr ⟨recvs, envs, sends, rfl, rfl, hdrained,
          turnsOf_of_drained envs sends hopen hdrained, rfl⟩
      · rw [handleRead_of_not_drained envs sends hopen hdrained, decided_recvIntoBuffer]
        exact .inl ⟨turnsOf_of_not_drained envs sends (.inr hdrained), rfl⟩
  | write sends =>
    unfold step handleWrite
    dsimp only
    split
    · exact .inl ⟨rfl, rfl⟩
    · exact .inl ⟨rfl, decided_tryFlush sends session⟩
  | close =>
    unfold step
    dsimp only
    split <;> exact .inl ⟨rfl, rfl⟩

/-- The turns of an event begin with the decision that the event found. -/
theorem decided_turnsOf (session : Session) (event : Event) : ∀ turn ∈ session.turnsOf event,
    turn.1.server.closeAfterFlush = session.server.closeAfterFlush := by
  obtain ⟨hnone, -⟩ | ⟨recvs, envs, sends, -, -, -, hturns, -⟩ := turnsOf_cases session event
  · simp [hnone]
  · rw [hturns]
    intro turn hmem
    exact (decided_visited envs _ turn hmem).trans (decided_recvIntoBuffer session recvs)

theorem closes_turnsOf (session : Session) (event : Event) :
    (session.turnsOf event).Pairwise fun turn _ ↦
      closes (turn.2 0) turn.1 = turn.1.server.closeAfterFlush := by
  obtain ⟨hnone, -⟩ | ⟨recvs, envs, sends, -, -, -, hturns, -⟩ := turnsOf_cases session event
  · simp [hnone]
  · rw [hturns]
    exact closes_visited envs _

/-- An event leaves the decision taken if it found it taken, or if one of its turns takes it. -/
theorem decided_step (session : Session) (event : Event) :
    (session.step event).server.closeAfterFlush = true ↔ session.server.closeAfterFlush = true ∨
      ∃ turn ∈ session.turnsOf event, closes (turn.2 0) turn.1 = true := by
  obtain ⟨hnone, hsame⟩ | ⟨recvs, envs, sends, -, -, -, hturns, hstep⟩ := turnsOf_cases session event
  · simp [hnone, hsame]
  · rw [hstep, hturns, decided_processRequests, decided_recvIntoBuffer]

/-- The condition on an event that finds the decision taken says that its turns do nothing. -/
theorem nothingLeftToAnswer_iff (session : Session) (event : Event) :
    session.NothingLeftToAnswer event ↔ (session.server.closeAfterFlush = true →
      ∀ turn ∈ session.turnsOf event, Silent turn) := by
  cases event with
  | read recvs envs sends =>
    unfold NothingLeftToAnswer
    refine imp_congr_right fun _ ↦ ?_
    by_cases hopen : session.server.closed = false
    · by_cases hdrained : (recvScan session.server.inBuffer.length recvs).2 = .drained
      · have hbuffer : (session.recvIntoBuffer recvs).server.inBuffer = session.server.inBuffer ++
            (recvScan session.server.inBuffer.length recvs).1 := by
          rw [recvIntoBuffer_server]
        rw [turnsOf_of_drained envs sends hopen hdrained, ← hbuffer]
        constructor
        · intro hneed
          have hparse := hneed hopen hdrained
          have hexit : processLoop.body (session.recvIntoBuffer recvs, envs) =
              .exit (session.recvIntoBuffer recvs) := by
            simp only [processLoop, processTurn_needMore hparse]
          rw [processLoop.visited_of_exit hexit, List.forall_mem_singleton]
          exact (silent_iff _).mpr hparse
        · intro hsilent _ _
          exact (silent_iff _).mp (hsilent _ (processLoop.self_mem_visited _))
      · simp [turnsOf_of_not_drained envs sends (.inr hdrained), hdrained]
    · simp [turnsOf_of_not_drained envs sends (.inl (by simpa using hopen)), hopen]
  | write sends => exact iff_of_true trivial fun _ turn hmem ↦ absurd hmem List.not_mem_nil
  | close => exact iff_of_true trivial fun _ turn hmem ↦ absurd hmem List.not_mem_nil

/-! ## The headers of a run -/

/-- Every response of the run has one `Connection` header, which says `close` if the close decision has
been taken and `keep-alive` if not; and after a decision, one of the run or one from before it, no turn
dispatches, refuses or queues anything. -/
structure HeadersTrue (session : Session) (events : List Event) : Prop where
  tell : ∀ turn ∈ turnsAlong session events, TellsTruth (turn.2 0) turn.1
  last : (turnsAlong session events).Pairwise fun turn later ↦
    closes (turn.2 0) turn.1 = true → Silent later
  decided : session.server.closeAfterFlush = true → ∀ turn ∈ turnsAlong session events, Silent turn

variable {session : Session} {event : Event} {events : List Event}

theorem headersTrue_nil (session : Session) : HeadersTrue session [] where
  tell := by simp [turnsAlong]
  last := .nil
  decided := by simp [turnsAlong]

/-- The headers of a run are true if those of its first event and those of the rest are. -/
theorem headersTrue_cons : HeadersTrue session (event :: events) ↔
    ((session.server.closeAfterFlush = true → ∀ turn ∈ session.turnsOf event, Silent turn) ∧
      ∀ turn ∈ session.turnsOf event, TellsTruth (turn.2 0) turn.1) ∧
        HeadersTrue (session.step event) events := by
  have hdecided := decided_step session event
  constructor
  · rintro ⟨htell, hlast, hbefore⟩
    rw [turnsAlong] at htell hlast hbefore
    obtain ⟨-, hlast, hacross⟩ := List.pairwise_append.mp hlast
    refine ⟨⟨fun hset turn hmem ↦ hbefore hset turn (List.mem_append_left _ hmem),
      fun turn hmem ↦ htell turn (List.mem_append_left _ hmem)⟩,
      fun turn hmem ↦ htell turn (List.mem_append_right _ hmem), hlast, ?_⟩
    intro hset later hlater
    obtain hset | ⟨turn, hturn, hcloses⟩ := hdecided.mp hset
    · exact hbefore hset later (List.mem_append_right _ hlater)
    · exact hacross turn hturn later hlater hcloses
  · rintro ⟨⟨hsilent, htell⟩, hrest⟩
    refine ⟨?_, ?_, ?_⟩
    · rw [turnsAlong, List.forall_mem_append]
      exact ⟨htell, hrest.tell⟩
    · rw [turnsAlong, List.pairwise_append]
      refine ⟨?_, hrest.last, ?_⟩
      · -- a turn that is not the last one of the event closes only if the event found the decision
        refine (closes_turnsOf session event).imp_of_mem ?_
        intro turn later hturn hlater hcloses hclosed
        rw [hcloses, decided_turnsOf session event turn hturn] at hclosed
        exact hsilent hclosed later hlater
      · intro turn hturn later hlater hcloses
        exact hrest.decided (hdecided.mpr (.inr ⟨turn, hturn, hcloses⟩)) later hlater
    · intro hset
      rw [turnsAlong, List.forall_mem_append]
      exact ⟨hsilent hset, hrest.decided (hdecided.mpr (.inl hset))⟩

/-- If nothing is left to answer behind a decision, the turns of an event tell the truth if and only if
their requests are untroubled. -/
theorem tellsTruth_turnsOf_iff (h : session.NothingLeftToAnswer event) :
    (∀ turn ∈ session.turnsOf event, TellsTruth (turn.2 0) turn.1) ↔
      ∀ turn ∈ session.turnsOf event, ∀ request consumed,
        HttpRequest.parse turn.1.server.inBuffer = .ok request consumed →
          Untroubled (turn.2 0) turn.1 request := by
  refine forall₂_congr fun turn hmem ↦ ?_
  have hsame := decided_turnsOf session event turn hmem
  cases hset : session.server.closeAfterFlush with
  | true =>
    have hparse := (silent_iff turn).mp ((nothingLeftToAnswer_iff session event).mp h hset turn hmem)
    simp [TellsTruth, turnSegments_of_needMore _ hparse, hparse]
  | false => exact tellsTruth_iff (turn.2 0) (hsame.trans hset)

theorem headersTrue_iff (session : Session) (events : List Event) :
    HeadersTrue session events ↔ Always step (fun session event ↦ session.NothingLeftToAnswer event ∧
      ∀ turn ∈ session.turnsOf event, ∀ request consumed,
        HttpRequest.parse turn.1.server.inBuffer = .ok request consumed →
          Untroubled (turn.2 0) turn.1 request) session events := by
  induction events generalizing session with
  | nil => exact iff_of_true (headersTrue_nil session) trivial
  | cons event events ih =>
    rw [headersTrue_cons, ← nothingLeftToAnswer_iff, ih, Always]
    refine and_congr_left fun _ ↦ and_congr_right fun hnothing ↦ ?_
    exact tellsTruth_turnsOf_iff hnothing

/-- In every run on a connection in any state, whatever the services and the files are, the turns queue
all that is queued, and a turn that answers takes the close decision for one of three reasons. The
headers of the responses tell the truth along the run if and only if no read event that finds the
decision taken leaves anything to answer, and every request on the way is untroubled. -/
theorem connectionHeader_true_iff (session : Session) (events : List Event) :
    queuedSegments (run step session events).trace = queuedSegments session.trace ++
        (turnsAlong session events).flatMap (fun turn ↦ turnSegments (turn.2 0) turn.1) ∧
      (∀ turn ∈ turnsAlong session events, ¬ Silent turn →
        (closes (turn.2 0) turn.1 = true ↔
          turn.1.server.closeAfterFlush = true ∨ Last (turn.2 0) turn.1)) ∧
      (HeadersTrue session events ↔
        Always step (fun session event ↦ session.NothingLeftToAnswer event ∧
          ∀ turn ∈ session.turnsOf event, ∀ request consumed,
            HttpRequest.parse turn.1.server.inBuffer = .ok request consumed →
              Untroubled (turn.2 0) turn.1 request) session events) := by
  refine ⟨queuedSegments_run session events, fun turn _ hanswered ↦ ?_, headersTrue_iff session events⟩
  exact closes_iff (turn.2 0) fun hparse ↦ hanswered ((silent_iff turn).mpr hparse)

/-- A keep-alive request for a file. -/
def fileRead (opened : Option OpenedFile) : Event :=
  .read [.received (lit "GET /static/page.html HTTP/1.1\r\n\r\n")] (fun _ ↦ fileEnv opened)
    fun _ ↦ ⟨1000, 0⟩

/-- The answer to a request for a file that does not exist has no `Connection` header. -/
theorem missing_file_without_header : ¬ ∀ session events, HeadersTrue session events := by
  intro h
  have htrue := h (new 7 (lit "10.0.0.1") ⟨⟨∅⟩, .new, .static⟩) [fileRead none]
  exact absurd (htrue.tell _ List.mem_cons_self) (by decide)

/-- A client that says `close` and sends one more request, while there is no room to send. -/
def closingRead : Event :=
  .read [.received (lit "GET / HTTP/1.1\r\nConnection: close\r\n\r\nGET /about HTTP/1.1\r\n\r\n")]
    (fun _ ↦ fileEnv none) fun _ ↦ ⟨-1, eagain⟩

/-- The next read event answers the request behind the response that said `close`. -/
example : ¬ HeadersTrue (new 7 (lit "10.0.0.1") ⟨⟨∅⟩, .new, .static⟩)
    [closingRead, .read [] (fun _ ↦ fileEnv none) fun _ ↦ ⟨1000, 0⟩] := by
  intro h
  obtain ⟨-, ⟨hnothing, -⟩, -⟩ := (headersTrue_iff _ _).mp h
  have hneed := hnothing (by decide +kernel) (by decide +kernel) (by decide +kernel)
  have hverdict := congrArg (fun verdict ↦ match verdict with | .ok _ _ => true | _ => false) hneed
  exact absurd hverdict (by decide +kernel)

end Session

end WebServer
