import WebServer.Connection.InputStream
import WebServer.Connection.ResponseStream

/-!
# What a client is answered

Every message a connection queues belongs to a verdict of the parser. `Exchange.Answers` says that it is
the server's answer to it: what the route makes of the request of this client, with the services and the
surroundings of some moment, or the refusal with the parser's code. `Served` collects what this means
for the client: which bytes of its input are the answered requests, and what it decodes from the bytes
the kernel took.
-/

namespace WebServer

open Bytes HttpServer OutSegment Execution

/-- The message is the answer of the server to the verdict. -/
inductive Exchange.Answers (clientIp : Bytes) : Exchange → Prop where
  | request (env : Env) (services : Services) (request : HttpRequest) :
      Answers clientIp ⟨.dispatch request,
        Session.message env request.keepAlive clientIp services request⟩
  | refusal (errorCode : ℕ) :
      Answers clientIp ⟨.reject errorCode, responseMessage (Session.parseErrorResponse errorCode)⟩

namespace Session

variable {session session' : Session} {clientIp : Bytes}

/-! ## The address of the client -/

theorem clientIp_processTurn {env : Env}
    (h : processTurn env session = .next session' ∨ processTurn env session = .exit session') :
    session'.server.clientIp = session.server.clientIp := by
  have hturned := processTurn_turned env session
  generalize processTurn env session = turn at h hturned
  cases hturned with
  | starved =>
    obtain rfl : session = session' := by simpa using h
    rfl
  | @refused errorCode =>
    obtain rfl : session.reject errorCode = session' := by simpa using h
    rw [reject_eq]
  | @last request consumed | @next request consumed =>
    obtain rfl : session.afterRequest env request consumed = session' := by simpa using h
    rw [afterRequest_server]
  | @full request consumed =>
    obtain rfl : (session.afterRequest env request consumed).outQueueExceeded = session' := by
      simpa using h
    rw [outQueueExceeded_server, afterRequest_server]

theorem clientIp_processRequests (envs : ℕ → Env) (session : Session) :
    (session.processRequests envs).server.clientIp = session.server.clientIp := by
  apply processLoop.run_induct
    (motive := fun state result ↦ result.server.clientIp = state.1.server.clientIp) _ _ (session, envs)
  · intro ⟨session, envs⟩ result hbody
    exact clientIp_processTurn (.inr (processTurn_of_exit hbody))
  · intro ⟨session, envs⟩ next result hbody ih
    exact ih.trans (clientIp_processTurn (.inl (processTurn_of_next hbody)))

theorem clientIp_tryFlush (results : ℕ → SysResult) (session : Session) :
    (session.tryFlush results).server.clientIp = session.server.clientIp := by
  obtain ⟨queue, registered, closed, hserver⟩ := (tryFlush_flushed results session).server
  rw [hserver]

theorem clientIp_step (session : Session) (event : Event) :
    (session.step event).server.clientIp = session.server.clientIp := by
  cases event with
  | read recvs envs sends =>
    have hrecv : (session.recvIntoBuffer recvs).server.clientIp = session.server.clientIp := by
      rw [recvIntoBuffer_server]
    unfold step handleRead
    dsimp only
    split
    · rfl
    · split
      · exact hrecv
      · split
        · exact (clientIp_processRequests envs _).trans hrecv
        · exact (clientIp_tryFlush sends _).trans ((clientIp_processRequests envs _).trans hrecv)
  | write sends =>
    unfold step handleWrite
    dsimp only
    split
    · rfl
    · exact clientIp_tryFlush sends session
  | close =>
    unfold step
    dsimp only
    split <;> rfl

/-! ## Every message is an answer -/

theorem answers_turnExchanges (env : Env) (session : Session) :
    ∀ exchange ∈ turnExchanges env session, exchange.Answers session.server.clientIp := by
  unfold turnExchanges
  split
  · simp
  · rw [List.forall_mem_singleton]
    exact .refusal _
  · rw [List.forall_mem_singleton]
    exact .request env session.services _

theorem answers_processExchanges (envs : ℕ → Env) (session : Session) :
    ∀ exchange ∈ processExchanges envs session, exchange.Answers session.server.clientIp := by
  suffices h : ∀ exchange ∈ processExchanges envs session,
      exchange ∈ ([] : List Exchange) ∨ exchange.Answers session.server.clientIp by
    intro exchange hmem
    exact (h exchange hmem).resolve_left List.not_mem_nil
  apply exchangeLoop.run_induct (motive := fun state result ↦ ∀ exchange ∈ result,
    exchange ∈ state.1 ∨ exchange.Answers state.2.1.server.clientIp) _ _ ([], session, envs)
  · intro ⟨before, session, envs⟩ result hbody exchange hmem
    simp only [exchangeLoop] at hbody
    split at hbody
    · exact absurd hbody (by simp)
    · obtain rfl := Turn.exit.inj hbody
      obtain hbefore | hnew := List.mem_append.mp hmem
      · exact .inl hbefore
      · exact .inr (answers_turnExchanges (envs 0) session exchange hnew)
  · intro ⟨before, session, envs⟩ state' result hbody ih exchange hmem
    simp only [exchangeLoop] at hbody
    split at hbody
    · rename_i next hnext
      obtain rfl := Turn.next.inj hbody
      obtain hold | hlater := ih exchange hmem
      · obtain hbefore | hnew := List.mem_append.mp hold
        · exact .inl hbefore
        · exact .inr (answers_turnExchanges (envs 0) session exchange hnew)
      · rw [clientIp_processTurn (.inl (processTurn_of_next hnext))] at hlater
        exact .inr hlater
    · exact absurd hbody (by simp)

theorem answers_stepExchanges (session : Session) (event : Event) :
    ∀ exchange ∈ session.stepExchanges event, exchange.Answers session.server.clientIp := by
  cases event with
  | read recvs envs sends =>
    have hrecv : (session.recvIntoBuffer recvs).server.clientIp = session.server.clientIp := by
      rw [recvIntoBuffer_server]
    unfold stepExchanges
    dsimp only
    split
    · simp
    · split
      · simp
      · rw [← hrecv]
        exact answers_processExchanges envs _
  | write sends => simp [stepExchanges]
  | close => simp [stepExchanges]

theorem answers_runExchanges (session : Session) (events : List Event) :
    ∀ exchange ∈ runExchanges session events, exchange.Answers session.server.clientIp := by
  induction events generalizing session with
  | nil => simp [runExchanges]
  | cons event events ih =>
    intro exchange hmem
    obtain hfirst | hlater := List.mem_append.mp hmem
    · exact answers_stepExchanges session event exchange hfirst
    · rw [← clientIp_step session event]
      exact ih (session.step event) exchange hlater

end Session

/-! ## What a client sees -/

/-- The bytes received are the texts of the answered requests and the unread rest, the bytes queued are
one answer to every verdict, and a client that decodes the accepted bytes gets the first of these
answers, in order. -/
def Served (clientIp : Bytes) (trace : List Action) : Prop :=
  ∃ (exchanges : List Exchange) (texts : List Bytes) (rest : Bytes),
    verdicts trace = exchanges.map Exchange.cause ∧
      (∀ exchange ∈ exchanges, exchange.Answers clientIp) ∧
      AreTexts texts (dispatched trace) ∧ received trace = texts.flatten ++ rest ∧
      EncodesAll (exchanges.map Exchange.message) (queued trace) ∧ accepted trace <+: queued trace ∧
      (responseFramer.drain (accepted trace)).messages <+: exchanges.map Exchange.message

theorem served_run (fd : ℕ) (clientIp : Bytes) (services : Services) (events : List Event) :
    Served clientIp (run Session.step (Session.new fd clientIp services) events).trace := by
  obtain ⟨texts, htexts, hreceived⟩ := (Session.readOnce_run fd clientIp services events).buffer
  obtain ⟨hverdicts, text, hqueued, hencodes⟩ :=
    Session.accounts_run (Session.new fd clientIp services) events
  have hledger : Session.Ledger [] (run Session.step (Session.new fd clientIp services) events) :=
    run_invariant_of_forall (fun _ event h ↦ h.step event)
      (Session.ledger_start (HttpServer.new fd clientIp) services) events
  have hprefix := hledger.balanced.accepted_prefix
  rw [denoteQueue_nil, List.nil_append] at hprefix
  have hnew : queued (Session.new fd clientIp services).trace = [] := rfl
  rw [hnew, List.nil_append] at hqueued
  refine ⟨_, texts, _, hverdicts, Session.answers_runExchanges _ events, htexts, hreceived,
    hqueued ▸ hencodes, hprefix, ?_⟩
  obtain ⟨later, hlater⟩ := hprefix
  have hmessages := responseFramer.drain_messages_prefix
    (accepted (run Session.step (Session.new fd clientIp services) events).trace) later
  rw [hlater, hqueued, hencodes.reads.drain_of_needMore rfl] at hmessages
  exact hmessages

end WebServer
