import WebServer.Connection.Input
import WebServer.Connection.Output
import WebServer.Service.ResponseFraming

/-!
# The stream of responses

Every answered verdict of the parser queues one message, whose header lines come from a fixed table
and whose `Content-Length` is the length of its body. An `Exchange` pairs a verdict with the status
and body of its response as the handlers left them. The stream of queued bytes is the concatenation of
these messages, and a client that reads header and length recovers them.
-/

namespace WebServer

open Bytes HttpServer OutSegment HttpResponse Execution Framer

/-! ## Encoded messages -/

/-- The status lines of the server. -/
def statusLines : List Bytes := statusCodes.map fun code ↦
  lit "HTTP/1.1" ++ lit " " ++ decimal code ++ lit " " ++ reasonPhrase code

/-- The text is a header part that announces the message, followed by its body; every line of the
header part is one of the fixed ones or the `Content-Length` line. -/
def Encodes (message : Message) (text : Bytes) : Prop :=
  ∃ block : HeaderBlock, text = block.toBytes ++ message.body ∧ Message.Announces block message ∧
    block.startLine ∈ statusLines ∧ ∀ line ∈ block.fieldLines, line ∈ headerLines message.body.length

/-- The text is the concatenation of the messages, each encoded once, in order. -/
def EncodesAll (messages : List Message) (text : Bytes) : Prop :=
  ∃ texts : List Bytes, text = texts.flatten ∧ List.Forall₂ Encodes messages texts

variable {messages messages' : List Message} {text text' : Bytes}

theorem EncodesAll.nil : EncodesAll [] [] := ⟨[], rfl, .nil⟩

theorem EncodesAll.singleton {message : Message} (h : Encodes message text) :
    EncodesAll [message] text :=
  ⟨[text], by simp, .cons h .nil⟩

theorem EncodesAll.append (h : EncodesAll messages text) (h' : EncodesAll messages' text') :
    EncodesAll (messages ++ messages') (text ++ text') := by
  obtain ⟨texts, rfl, hall⟩ := h
  obtain ⟨texts', rfl, hall'⟩ := h'
  exact ⟨texts ++ texts', by simp, List.rel_append hall hall'⟩

/-- Reading a stream of encoded messages gives the messages and leaves nothing. -/
theorem EncodesAll.reads (h : EncodesAll messages text) : responseFramer.Reads text messages [] := by
  obtain ⟨texts, rfl, hall⟩ := h
  induction hall with
  | nil => exact .refl []
  | @cons message text messages texts hmessage _ ih =>
    obtain ⟨block, rfl, hannounces, -⟩ := hmessage
    refine .cons (responseFramer.ok_append hannounces.decode texts.flatten) rfl ?_
    rw [List.flatten_cons, List.drop_left]
    exact ih

theorem encodes_of_framed {response : HttpResponse} {message : Message}
    (h : Framed response message.body.length) (hstatus : response.statusCode = message.statusCode) :
    Encodes message (response.toStringHeaders ++ message.body) := by
  refine ⟨headerBlock response message.body.length h, by rw [toStringHeaders_eq h],
    h.announces hstatus, ?_, ?_⟩
  · have hline : (headerBlock response message.body.length h).startLine = lit "HTTP/1.1" ++ lit " " ++
        decimal response.statusCode ++ lit " " ++ reasonPhrase response.statusCode := by
      change response.statusLine = _
      rw [statusLine, h.version, h.statusMessage]
    rw [hline]
    exact List.mem_map.mpr ⟨_, h.statusCode, rfl⟩
  · intro line hmem
    obtain ⟨header, hheader, rfl⟩ := List.mem_map.mp hmem
    exact h.mem_headerLines hheader

/-- The message of a response that carries its body. -/
def responseMessage (response : HttpResponse) : Message := ⟨response.statusCode, response.body⟩

theorem encodes_toString {response : HttpResponse} (h : Framed response response.body.length) :
    Encodes (responseMessage response) response.toString :=
  have hencodes : Encodes (responseMessage response)
      (response.toStringHeaders ++ (responseMessage response).body) := encodes_of_framed h rfl
  hencodes

/-! ## The message of an answer -/

theorem clean_addKeepAlive {response : HttpResponse} (h : Clean response) (keepAlive : Bool) :
    Clean (Session.addKeepAlive response keepAlive) := by
  unfold Session.addKeepAlive Session.connectionValue
  cases keepAlive with
  | false => exact h.addHeader (.inl (by decide))
  | true =>
    exact (h.addHeader (.inl (by decide))).addHeader (.inl (by decide))

theorem framed_addKeepAlive {response : HttpResponse} {length : ℕ} (h : Framed response length)
    (keepAlive : Bool) : Framed (Session.addKeepAlive response keepAlive) length := by
  unfold Session.addKeepAlive Session.connectionValue
  cases keepAlive with
  | false => exact h.addHeader (by decide)
  | true => exact (h.addHeader (by decide)).addHeader (by decide)

namespace Session

theorem clean_initialResponse (keepAlive : Bool) : Clean (initialResponse keepAlive) :=
  clean_addKeepAlive (clean_new.addHeader (.inl (by decide))) keepAlive

theorem framed_fileNotFound (text : Bytes) :
    Framed (fileNotFound text) (fileNotFound text).body.length :=
  framed_setStatus_setBody clean_new (by decide) text

theorem framed_fileHeaders (path : Bytes) (size : ℕ) (keepAlive : Bool) :
    Framed (fileHeaders path size keepAlive) size := by
  have hclean : Clean ((HttpResponse.new.setStatus 200).addHeader (lit "Content-Type")
      (mimeType path)) :=
    (clean_new.setStatus (by decide)).addHeader (.inl (mem_headerTable_mimeType path))
  exact framed_addKeepAlive ⟨hclean.addHeader (.inr rfl), by simp [HttpResponse.addHeader]⟩ keepAlive

theorem framed_parseErrorResponse {code : ℕ} (hcode : code ∈ statusCodes) :
    Framed (parseErrorResponse code) (parseErrorResponse code).body.length :=
  (((clean_new.setStatus hcode).addHeader (.inl (by decide))).addHeader
    (.inl (by decide))).setBody _

/-- Status and body of the answer to a request for a file. -/
def fileMessage (env : Env) (path : Bytes) : Message :=
  match env.openFile (cString path) with
  | none =>
    responseMessage (fileNotFound (lit "404 Not Found: The requested file does not exist."))
  | some opened =>
    match opened.stat with
    | some ⟨true, size⟩ => ⟨200, fileBytes opened.content 0 size⟩
    | _ => responseMessage (fileNotFound (lit "404 Not Found"))

/-- Status and body of the answer to a request, as the router and the handlers decide them. -/
def message (env : Env) (keepAlive : Bool) (clientIp : Bytes) (services : Services)
    (request : HttpRequest) : Message :=
  match route env keepAlive clientIp services request with
  | none => responseMessage (routeNotFound (initialResponse keepAlive))
  | some (response, _) =>
    if response.hasFile then fileMessage env response.filePath else responseMessage response

theorem length_fileBytes (content : ℕ → Byte) (offset count : ℕ) :
    (fileBytes content offset count).length = count := by
  simp [fileBytes]

theorem encodes_fileAnswer (env : Env) (keepAlive : Bool) (services : Services) (path : Bytes) :
    Encodes (fileMessage env path)
      (denoteQueue (fileAnswer env keepAlive services path).segments) := by
  unfold fileMessage fileAnswer
  cases env.openFile (cString path) with
  | none => simpa [denoteQueue, denote] using encodes_toString (framed_fileNotFound _)
  | some opened =>
    obtain ⟨fd, stat, content⟩ := opened
    rcases stat with _ | ⟨_ | _, size⟩
    · simpa [denoteQueue, denote] using encodes_toString (framed_fileNotFound _)
    · simpa [denoteQueue, denote] using encodes_toString (framed_fileNotFound _)
    · have hframed := framed_fileHeaders path size keepAlive
      have hlength : (fileBytes content 0 size).length = size := length_fileBytes content 0 size
      have hencodes : Encodes ⟨200, fileBytes content 0 size⟩
          ((fileHeaders path size keepAlive).toStringHeaders ++ fileBytes content 0 size) :=
        encodes_of_framed (by rwa [hlength]) (by cases keepAlive <;> rfl)
      simpa [denoteQueue, denote, length_fileBytes] using hencodes

/-- The queued segments of an answer are its message. -/
theorem encodes_answer (env : Env) (keepAlive : Bool) (clientIp : Bytes) (services : Services)
    (request : HttpRequest) : Encodes (message env keepAlive clientIp services request)
      (denoteQueue (answer env keepAlive clientIp services request).segments) := by
  unfold message answer
  cases hroute : route env keepAlive clientIp services request with
  | none =>
    have hframed : Framed (routeNotFound (initialResponse keepAlive))
        (routeNotFound (initialResponse keepAlive)).body.length :=
      framed_setStatus_setBody (clean_initialResponse keepAlive) (by decide) _
    simpa [denoteQueue, denote] using encodes_toString hframed
  | some result =>
    obtain ⟨response, services'⟩ := result
    dsimp only
    cases hfile : response.hasFile with
    | true => exact encodes_fileAnswer ..
    | false =>
      have hframed := framed_dispatch (clean_initialResponse keepAlive) hroute hfile
      simpa [denoteQueue, denote] using encodes_toString hframed

end Session

/-! ## Exchanges -/

/-- A verdict of the parser that was answered, and the message that answers it. -/
structure Exchange where
  cause : Action
  message : Message

def Action.isVerdict : Action → Bool
  | dispatch _ | reject _ => true
  | _ => false

/-- The dispatched requests and refusals of a trace, in order. -/
def verdicts (trace : List Action) : List Action := trace.filter Action.isVerdict

@[simp]
theorem verdicts_append (first second : List Action) :
    verdicts (first ++ second) = verdicts first ++ verdicts second := List.filter_append ..

namespace Session

/-- The exchange of one turn of `processRequests`, if the turn answers anything. -/
def turnExchanges (env : Env) (session : Session) : List Exchange :=
  match HttpRequest.parse session.server.inBuffer with
  | .needMore => []
  | .error errorCode => [⟨.reject errorCode, responseMessage (parseErrorResponse errorCode)⟩]
  | .ok request _ => [⟨.dispatch request,
      message env request.keepAlive session.server.clientIp session.services request⟩]

/-- The loop of `processRequests` once more, collecting its exchanges. -/
def exchangeLoop : WhileLoop (List Exchange × Session × (ℕ → Env)) (List Exchange) where
  body state :=
    let exchanges := state.1 ++ turnExchanges (state.2.2 0) state.2.1
    match processLoop.body state.2 with
    | .next next => .next (exchanges, next)
    | .exit _ => .exit exchanges
  measure state := processLoop.measure state.2
  decreases state state' h := by
    dsimp only at h
    split at h
    · rename_i next hbody
      obtain rfl := Turn.next.inj h
      exact processLoop.decreases _ _ hbody
    · exact absurd h (by simp)

def processExchanges (envs : ℕ → Env) (session : Session) : List Exchange :=
  exchangeLoop.run ([], session, envs)

/-- The exchanges of an event. -/
def stepExchanges (session : Session) : Event → List Exchange
  | .read recvs envs _ =>
    if session.server.closed then []
    else
      let session := session.recvIntoBuffer recvs
      if session.server.closed then [] else processExchanges envs session
  | _ => []

/-- The exchanges of a run. -/
def runExchanges : Session → List Event → List Exchange
  | _, [] => []
  | session, event :: events => session.stepExchanges event ++ runExchanges (session.step event) events

/-- The exchanges account for what a step added to the trace: they name the verdicts it answered, and
the bytes it queued are their messages. -/
def Accounts (session session' : Session) (exchanges : List Exchange) : Prop :=
  verdicts session'.trace = verdicts session.trace ++ exchanges.map Exchange.cause ∧
    ∃ text, queued session'.trace = queued session.trace ++ text ∧
      EncodesAll (exchanges.map Exchange.message) text

variable {session session' session'' : Session} {exchanges exchanges' : List Exchange}

theorem Accounts.trans (h : Accounts session session' exchanges)
    (h' : Accounts session' session'' exchanges') :
    Accounts session session'' (exchanges ++ exchanges') := by
  obtain ⟨hverdicts, text, hqueued, hencodes⟩ := h
  obtain ⟨hverdicts', text', hqueued', hencodes'⟩ := h'
  refine ⟨by rw [hverdicts', hverdicts, List.map_append, List.append_assoc], text ++ text', ?_, ?_⟩
  · rw [hqueued', hqueued, List.append_assoc]
  · rw [List.map_append]
    exact hencodes.append hencodes'

theorem Accounts.of_extends {kind : Action → Prop} (h : Extends kind session session')
    (hkind : ∀ action, kind action → action.isVerdict = false ∧ action.queuedSegment = none) :
    Accounts session session' [] := by
  obtain ⟨calls, htrace, hcalls⟩ := h
  have hverdicts : verdicts calls = [] :=
    List.filter_eq_nil_iff.mpr fun action hmem ↦ by simp [(hkind action (hcalls action hmem)).1]
  have hqueued : queued calls = [] := by
    rw [queued, List.filterMap_eq_nil_iff.mpr fun action hmem ↦ (hkind action (hcalls action hmem)).2,
      denoteQueue_nil]
  refine ⟨by rw [htrace, verdicts_append, hverdicts]; rfl, [], ?_, .nil⟩
  rw [htrace, queued_append, hqueued]

theorem accounts_refl (session : Session) : Accounts session session [] :=
  have hrefl : Extends (fun _ ↦ False) session session := .refl session
  .of_extends hrefl fun _ ↦ False.elim

theorem accounts_reject (session : Session) {errorCode : ℕ} (hcode : errorCode ∈ statusCodes) :
    Accounts session (session.reject errorCode)
      [⟨.reject errorCode, responseMessage (parseErrorResponse errorCode)⟩] := by
  refine ⟨by rw [reject_eq, verdicts_append]; rfl, (parseErrorResponse errorCode).toString ++ [],
    by rw [reject_eq, queued_append]; rfl, ?_⟩
  rw [List.append_nil]
  exact .singleton (encodes_toString (framed_parseErrorResponse hcode))

theorem accounts_afterRequest (session : Session) (env : Env) (request : HttpRequest)
    (consumed : ℕ) : Accounts session (session.afterRequest env request consumed)
      [⟨.dispatch request,
        message env request.keepAlive session.server.clientIp session.services request⟩] := by
  have hcalls (action : Action) (hmem : action ∈ (session.nextAnswer env request).calls) :
      action.isVerdict = false ∧ action.queuedSegment = none := by
    have hfile := isFileCall_of_mem_answer hmem
    cases action <;> first | exact ⟨rfl, rfl⟩ | exact absurd hfile id
  have hverdicts : verdicts (session.nextAnswer env request).calls = [] :=
    List.filter_eq_nil_iff.mpr fun action hmem ↦ by simp [(hcalls action hmem).1]
  have hsegments : verdicts ((session.nextAnswer env request).segments.map .enqueue) = [] := by
    refine List.filter_eq_nil_iff.mpr fun action hmem ↦ ?_
    obtain ⟨segment, -, rfl⟩ := List.mem_map.mp hmem
    exact Bool.false_ne_true
  have hqueued : queued (session.nextAnswer env request).calls = [] := by
    rw [queued, List.filterMap_eq_nil_iff.mpr fun action hmem ↦ (hcalls action hmem).2,
      denoteQueue_nil]
  have hcons (trace : List Action) : Action.dispatch request :: trace = [.dispatch request] ++ trace :=
    rfl
  refine ⟨?_, denoteQueue (session.nextAnswer env request).segments, ?_,
    .singleton (encodes_answer ..)⟩
  · rw [afterRequest_trace, hcons, verdicts_append, verdicts_append, verdicts_append, hverdicts,
      hsegments]
    rfl
  · rw [afterRequest_trace, hcons, queued_append, queued_append, queued_append, hqueued,
      queued_map_enqueue, queued_singleton_of_none _ rfl]
    rfl

/-- A turn queues the message of its exchange. -/
theorem accounts_processTurn {env : Env} {session session' : Session}
    (h : processTurn env session = .next session' ∨ processTurn env session = .exit session') :
    Accounts session session' (turnExchanges env session) := by
  have hturned := processTurn_turned env session
  generalize processTurn env session = turned at h hturned
  unfold turnExchanges
  cases hturned with
  | starved hparse =>
    obtain rfl : session = session' := by simpa using h
    rw [hparse]
    exact accounts_refl session
  | @refused errorCode hparse =>
    obtain rfl : session.reject errorCode = session' := by simpa using h
    rw [hparse]
    refine accounts_reject session ?_
    have hcode := HttpRequest.parse_error_code hparse
    simp only [List.mem_cons, List.not_mem_nil, or_false] at hcode
    rcases hcode with rfl | rfl | rfl | rfl <;> decide
  | @last request consumed hparse | @next request consumed hparse =>
    obtain rfl : session.afterRequest env request consumed = session' := by simpa using h
    rw [hparse]
    exact accounts_afterRequest session env request consumed
  | @full request consumed hparse =>
    obtain rfl : (session.afterRequest env request consumed).outQueueExceeded = session' := by
      simpa using h
    obtain ⟨warning, htrace⟩ :=
      outQueueExceeded_trace (session.afterRequest env request consumed)
    have hwarning : Extends (· = .log .warning warning)
        (session.afterRequest env request consumed)
        (session.afterRequest env request consumed).outQueueExceeded :=
      ⟨[_], htrace, by simp⟩
    have hsilent : Accounts (session.afterRequest env request consumed)
        (session.afterRequest env request consumed).outQueueExceeded [] :=
      .of_extends hwarning fun action haction ↦ haction ▸ ⟨rfl, rfl⟩
    rw [hparse]
    simpa using (accounts_afterRequest session env request consumed).trans hsilent

/-- Processing requests queues the messages of its exchanges. -/
theorem accounts_processRequests (envs : ℕ → Env) (session : Session) :
    Accounts session (session.processRequests envs) (processExchanges envs session) := by
  have hloop := exchangeLoop.run_induct (motive := fun state result ↦ ∃ exchanges,
    result = state.1 ++ exchanges ∧
      Accounts state.2.1 (processLoop.run state.2) exchanges) ?_ ?_ ([], session, envs)
  · obtain ⟨exchanges, heq, haccounts⟩ := hloop
    rw [processExchanges, heq]
    exact haccounts
  · rintro ⟨before, session, envs⟩ result hbody
    simp only [exchangeLoop] at hbody
    split at hbody
    · exact absurd hbody (by simp)
    · rename_i session' hexit
      obtain rfl := Turn.exit.inj hbody
      refine ⟨_, rfl, ?_⟩
      rw [processLoop.run_of_exit hexit]
      exact accounts_processTurn (.inr (processTurn_of_exit hexit))
  · rintro ⟨before, session, envs⟩ state' result hbody ⟨exchanges, heq, haccounts⟩
    simp only [exchangeLoop] at hbody
    split at hbody
    · rename_i next hnext
      obtain rfl := Turn.next.inj hbody
      refine ⟨turnExchanges (envs 0) session ++ exchanges, by rw [heq, List.append_assoc], ?_⟩
      rw [processLoop.run_of_next hnext]
      exact (accounts_processTurn (.inl (processTurn_of_next hnext))).trans haccounts
    · exact absurd hbody (by simp)

theorem accounts_recvIntoBuffer (session : Session) (recvs : List RecvResult) :
    Accounts session (session.recvIntoBuffer recvs) [] := by
  refine .of_extends (recvIntoBuffer_extends session recvs).1 fun action hkind ↦ ?_
  cases action <;> first | exact ⟨rfl, rfl⟩ | exact absurd hkind id

theorem accounts_tryFlush (results : ℕ → SysResult) (session : Session) :
    Accounts session (session.tryFlush results) [] := by
  refine .of_extends (tryFlush_flushed results session).calls fun action hkind ↦ ?_
  cases action <;> first | exact ⟨rfl, rfl⟩ | exact absurd hkind id

theorem accounts_step (session : Session) (event : Event) :
    Accounts session (session.step event) (session.stepExchanges event) := by
  cases event with
  | read recvs envs sends =>
    unfold step handleRead stepExchanges
    dsimp only
    split
    · exact accounts_refl session
    · split
      · exact accounts_recvIntoBuffer session recvs
      · have hprocess := (accounts_recvIntoBuffer session recvs).trans
          (accounts_processRequests envs (session.recvIntoBuffer recvs))
        split
        · exact hprocess
        · simpa using hprocess.trans (accounts_tryFlush sends _)
  | write sends =>
    unfold step handleWrite
    dsimp only
    split
    · exact accounts_refl session
    · exact accounts_tryFlush sends session
  | close =>
    unfold step
    dsimp only
    split
    · exact accounts_refl session
    · have hclose : Extends (· = .closeConnection) session session.closeConnection :=
        (Extends.refl session).snoc rfl rfl
      exact .of_extends hclose fun action haction ↦ haction ▸ ⟨rfl, rfl⟩

theorem accounts_run (session : Session) (events : List Event) :
    Accounts session (run step session events) (runExchanges session events) := by
  induction events generalizing session with
  | nil => exact accounts_refl session
  | cons event events ih => exact (accounts_step session event).trans (ih (session.step event))

/-- On every connection and in every environment, the queued bytes are one message for each answered
verdict of the parser, in order, with header lines from a fixed table, and a client that reads each
header up to the first blank line and then as many bytes as its `Content-Length` says recovers exactly
the list of status codes and bodies. -/
theorem responses_uniquely_decodable (fd : ℕ) (clientIp : Bytes) (services : Services)
    (events : List Event) :
    verdicts (run step (new fd clientIp services) events).trace =
        (runExchanges (new fd clientIp services) events).map Exchange.cause ∧
      EncodesAll ((runExchanges (new fd clientIp services) events).map Exchange.message)
        (queued (run step (new fd clientIp services) events).trace) ∧
      responseFramer.drain (queued (run step (new fd clientIp services) events).trace) =
        ⟨(runExchanges (new fd clientIp services) events).map Exchange.message, none⟩ ∧
      responseFramer.Reads (queued (run step (new fd clientIp services) events).trace)
        ((runExchanges (new fd clientIp services) events).map Exchange.message) [] := by
  obtain ⟨hverdicts, text, hqueued, hencodes⟩ := accounts_run (new fd clientIp services) events
  have hnew : queued (new fd clientIp services).trace = [] := rfl
  rw [hnew, List.nil_append] at hqueued
  rw [hqueued]
  exact ⟨hverdicts, hencodes, hencodes.reads.drain_of_needMore rfl, hencodes.reads⟩

end Session

end WebServer
