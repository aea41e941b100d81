import WebServer.Connection.ResponseStream
import WebServer.Connection.Turns
import WebServer.Http.HeaderCase

/-!
# The Connection header of a response

A response says in its `Connection` header whether the server goes on with the connection. The header
is put on a response where it is made: by `dispatch` before the router sees it, by the file response,
and by the answer to a parse error. The two answers of `sendFileResponse` to a file that cannot be sent
are made without it, and a response made for a kept connection says so also when its own segments then
exceed the output limit. This module is about the turns of `processRequests`, one by one.
-/

namespace WebServer

open Bytes HttpServer OutSegment HttpResponse

/-! ## Reading the header -/

/-- The values of the `Connection` headers in front of the first blank line, under any letter case. -/
def connectionValues (text : Bytes) : List Bytes :=
  ((HttpRequest.headerFields text).filter fun field ↦
    HttpRequest.lowered field.1 = lit "connection").map Prod.snd

namespace HttpResponse

/-- The header that a response carries in its map. -/
def connection (response : HttpResponse) : Option Bytes := response.headers[lit "Connection"]?

variable {response : HttpResponse} {length : ℕ}

theorem headerField_headerTable :
    ∀ header ∈ headerTable, HttpRequest.headerField (headerLine header) = some header := by
  decide

theorem headerField_contentLength (length : ℕ) :
    HttpRequest.headerField (headerLine (lit "Content-Length", decimal length)) =
      some (lit "Content-Length", decimal length) :=
  HttpRequest.headerField_line (contentLengthField length)

theorem Framed.headerField_headerLine (h : Framed response length) {header : Bytes × Bytes}
    (hmem : header ∈ response.headers.toList) :
    HttpRequest.headerField (headerLine header) = some header := by
  obtain ⟨key, value⟩ := header
  have hget := Std.ExtTreeMap.mem_toList_iff_getElem?_eq_some.mp hmem
  obtain htable | rfl := h.headers key value hget
  · exact headerField_headerTable _ htable
  · obtain rfl := Option.some.inj (hget.symm.trans h.contentLength)
    exact headerField_contentLength length

/-- A client finds in the text of a response exactly the headers of its map. -/
theorem Framed.headerFields (h : Framed response length) (body : Bytes) :
    HttpRequest.headerFields (response.toStringHeaders ++ body) = response.headers.toList := by
  let block := headerBlock response length h
  let head : RequestHead :=
    { startLine := block.startLine
      fieldLines := block.fieldLines
      find_startLine := HeaderBlock.find_crlf_eq_none block.cr_notMem_startLine
      find_fieldLines := fun line hline ↦
        HeaderBlock.find_crlf_eq_none (block.cr_notMem_fieldLines line hline)
      fieldLines_ne_nil := block.fieldLines_ne_nil }
  have htext : response.toStringHeaders = head.toBytes := toStringHeaders_eq h
  have hlines : HttpRequest.headerLines (head.toBytes ++ body) =
      response.headers.toList.map headerLine := HttpRequest.headerLines_toBytes head body
  rw [htext, HttpRequest.headerFields, hlines, List.filterMap_map]
  exact (List.filterMap_congr fun header hmem ↦ h.headerField_headerLine hmem).trans
    List.filterMap_some

/-- No other header of the server has the name in any letter case. -/
theorem lowered_headerTable : ∀ header ∈ headerTable,
    HttpRequest.lowered header.1 = lit "connection" → header.1 = lit "Connection" := by
  decide

theorem Clean.eq_connection (h : Clean response) {key value : Bytes}
    (hget : response.headers[key]? = some value)
    (hname : HttpRequest.lowered key = lit "connection") : key = lit "Connection" := by
  obtain htable | rfl := h.headers key value hget
  · exact lowered_headerTable _ htable hname
  · exact absurd hname (by decide)

/-- A client reads the `Connection` header of the map, once or not at all. -/
theorem Framed.connectionValues (h : Framed response length) (body : Bytes) :
    connectionValues (response.toStringHeaders ++ body) = response.connection.toList := by
  rw [WebServer.connectionValues, h.headerFields,
    filter_toList_eq response.headers (lit "Connection"), HttpResponse.connection]
  · cases response.headers[lit "Connection"]? <;> rfl
  · intro header hmem
    have hget := Std.ExtTreeMap.mem_toList_iff_getElem?_eq_some.mp (show header ∈ _ from hmem)
    rw [decide_eq_true_iff]
    constructor
    · exact h.eq_connection hget
    · intro hname
      rw [hname]
      decide

theorem Framed.connectionValues_toString (h : Framed response response.body.length) :
    WebServer.connectionValues response.toString = response.connection.toList :=
  h.connectionValues response.body

/-! ## Writing the header -/

@[simp]
theorem connection_new : HttpResponse.new.connection = none := by
  simp [connection, HttpResponse.new]

@[simp]
theorem connection_addHeader (value : Bytes) :
    (response.addHeader (lit "Connection") value).connection = some value := by
  simp [connection, addHeader]

theorem connection_addHeader_of_ne {key : Bytes} (hkey : key ≠ lit "Connection") (value : Bytes) :
    (response.addHeader key value).connection = response.connection := by
  unfold connection addHeader
  rw [Std.ExtTreeMap.getElem?_insert, if_neg]
  exact fun heq ↦ hkey (Std.LawfulEqCmp.eq_of_compare heq)

@[simp]
theorem connection_setStatus (code : ℕ) :
    (response.setStatus code).connection = response.connection := rfl

@[simp]
theorem connection_setFile (path : Bytes) :
    (response.setFile path).connection = response.connection := rfl

@[simp]
theorem connection_setBody (body : Bytes) :
    (response.setBody body).connection = response.connection :=
  connection_addHeader_of_ne (by decide) _

theorem connection_addKeepAlive (keepAlive : Bool) :
    (Session.addKeepAlive response keepAlive).connection =
      some (Session.connectionValue keepAlive) := by
  unfold Session.addKeepAlive
  cases keepAlive with
  | false => exact connection_addHeader _
  | true => exact (connection_addHeader_of_ne (by decide) _).trans (connection_addHeader _)

end HttpResponse

/-! ## Handlers leave the header alone -/

/-- A handler leaves the `Connection` header as it finds it. -/
def Handler.KeepsConnection (handler : Handler) : Prop :=
  ∀ request params services response,
    (handler request params services response).1.connection = response.connection

theorem keepsConnection_homeHandler : Handler.KeepsConnection homeHandler :=
  fun _ _ _ _ ↦ connection_setBody _

theorem keepsConnection_aboutHandler : Handler.KeepsConnection aboutHandler :=
  fun _ _ _ _ ↦ connection_setBody _

theorem keepsConnection_echoHandler : Handler.KeepsConnection echoHandler :=
  fun _ _ _ _ ↦ connection_setBody _

theorem keepsConnection_kvListHandler : Handler.KeepsConnection kvListHandler :=
  fun _ _ _ _ ↦ connection_setBody _

theorem keepsConnection_staticFileHandler : Handler.KeepsConnection staticFileHandler := by
  intro request params services response
  unfold staticFileHandler
  split
  · simp
  · dsimp only
    split
    · simp [forbidden]
    · split
      · simp [forbidden]
      · simp

theorem keepsConnection_kvPutHandler : Handler.KeepsConnection kvPutHandler := by
  intro request params services response
  unfold kvPutHandler
  split <;> simp [notFound]

theorem keepsConnection_kvGetHandler : Handler.KeepsConnection kvGetHandler := by
  intro request params services response
  unfold kvGetHandler
  split
  · simp [notFound]
  · split <;> simp [notFound]

theorem keepsConnection_kvDeleteHandler : Handler.KeepsConnection kvDeleteHandler := by
  intro request params services response
  unfold kvDeleteHandler
  split
  · simp [notFound]
  · dsimp only
    split <;> simp [notFound]

theorem keepsConnection_getRouter : ∀ route ∈ getRouter, Handler.KeepsConnection route.handler :=
  forall_mem_getRouter keepsConnection_homeHandler keepsConnection_aboutHandler
    keepsConnection_staticFileHandler keepsConnection_kvPutHandler keepsConnection_kvGetHandler
    keepsConnection_kvDeleteHandler keepsConnection_kvListHandler keepsConnection_echoHandler

theorem connection_dispatch {request : HttpRequest} {clientIp : Bytes} {now cleanupNow : Time}
    {services services' : Services} {response response' : HttpResponse}
    (hdispatch : Router.dispatch getRouter request response clientIp now cleanupNow services =
      some (response', services')) : response'.connection = response.connection := by
  obtain ⟨code, text, -, hrouter⟩ | ⟨route, hmem, params, limiter, hhandler⟩ :=
    Router.dispatchRoutes_cases hdispatch
  · obtain rfl : response' = (response.setStatus code).setBody text := hrouter
    simp
  · have hkeeps := keepsConnection_getRouter route hmem request params
      { services with limiter := limiter } response
    rwa [← hhandler] at hkeeps

namespace Session

/-! ## The header of an answer -/

/-- The file that the handlers choose as the answer to a request. -/
def chosenFile (env : Env) (session : Session) (request : HttpRequest) : Option Bytes :=
  match route env request.keepAlive session.server.clientIp session.services request with
  | some (response, _) => if response.hasFile then some response.filePath else none
  | none => none

/-- `open` finds a file at the path, and `fstat` says that it is regular. -/
def opensRegular (env : Env) (path : Bytes) : Bool :=
  match env.openFile (cString path) with
  | some ⟨_, some ⟨true, _⟩, _⟩ => true
  | _ => false

/-- The file of the answer can be sent, and a kept connection stays within the output limit. -/
structure Untroubled (env : Env) (session : Session) (request : HttpRequest) : Prop where
  file : ∀ path ∈ chosenFile env session request, opensRegular env path = true
  queue : request.keepAlive = true → session.server.outQueue.length +
    (if (chosenFile env session request).isSome then 2 else 1) ≤ maxOutSegments

theorem connectionValues_fileNotFound (text : Bytes) :
    connectionValues (fileNotFound text).toString = [] := by
  rw [(framed_fileNotFound text).connectionValues_toString]
  simp [fileNotFound]

theorem connectionValues_parseErrorResponse {code : ℕ} (hcode : code ∈ statusCodes) :
    connectionValues (parseErrorResponse code).toString = [lit "close"] := by
  rw [(framed_parseErrorResponse hcode).connectionValues_toString]
  simp [parseErrorResponse]

/-- A response that carries its body, with what `dispatch` has put on it. -/
theorem connectionValues_response {response : HttpResponse} {keepAlive : Bool}
    (hframed : Framed response response.body.length)
    (hconnection : response.connection = (initialResponse keepAlive).connection) :
    connectionValues response.toString = [connectionValue keepAlive] := by
  rw [hframed.connectionValues_toString, hconnection, initialResponse, connection_addKeepAlive]
  rfl

theorem fileAnswer_of_opensRegular {env : Env} {keepAlive : Bool} {services : Services} {path : Bytes}
    (h : opensRegular env path = true) :
    connectionValues (denoteQueue (fileAnswer env keepAlive services path).segments) =
        [connectionValue keepAlive] ∧
      (fileAnswer env keepAlive services path).segments.length = 2 := by
  unfold opensRegular at h
  unfold fileAnswer
  split at h
  · rename_i fd size content hopened
    rw [hopened]
    have hconnection : (fileHeaders path size keepAlive).connection =
        some (connectionValue keepAlive) := connection_addKeepAlive keepAlive
    refine ⟨?_, rfl⟩
    simp only [denoteQueue, List.flatMap_cons, denote]
    rw [(framed_fileHeaders path size keepAlive).connectionValues, hconnection]
    rfl
  · exact absurd h Bool.false_ne_true

theorem fileAnswer_of_not_opensRegular {env : Env} {keepAlive : Bool} {services : Services}
    {path : Bytes} (h : opensRegular env path = false) :
    connectionValues (denoteQueue (fileAnswer env keepAlive services path).segments) = [] := by
  have hnotFound (text : Bytes) :
      connectionValues (denoteQueue [.bytes (fileNotFound text).toString]) = [] := by
    simpa [denoteQueue, denote] using connectionValues_fileNotFound text
  unfold opensRegular at h
  unfold fileAnswer
  cases hopened : env.openFile (cString path) with
  | none => exact hnotFound _
  | some opened =>
    obtain ⟨fd, stat, content⟩ := opened
    obtain _ | ⟨_ | _, size⟩ := stat
    · exact hnotFound _
    · exact hnotFound _
    · rw [hopened] at h
      exact absurd h Bool.true_eq_false.mp

/-- The answer to a request says whether the request keeps the connection, if its file can be sent. -/
theorem nextAnswer_of_sendable {env : Env} {session : Session} {request : HttpRequest}
    (h : ∀ path ∈ chosenFile env session request, opensRegular env path = true) :
    connectionValues (denoteQueue (session.nextAnswer env request).segments) =
        [connectionValue request.keepAlive] ∧
      (session.nextAnswer env request).segments.length =
        if (chosenFile env session request).isSome then 2 else 1 := by
  have hbytes {response : HttpResponse} (hframed : Framed response response.body.length)
      (hconnection : response.connection = (initialResponse request.keepAlive).connection) :
      connectionValues (denoteQueue [.bytes response.toString]) =
        [connectionValue request.keepAlive] := by
    simpa [denoteQueue, denote] using connectionValues_response hframed hconnection
  unfold chosenFile at h ⊢
  unfold nextAnswer answer
  cases hroute : route env request.keepAlive session.server.clientIp session.services request with
  | none =>
    have hframed : Framed (routeNotFound (initialResponse request.keepAlive))
        (routeNotFound (initialResponse request.keepAlive)).body.length :=
      framed_setStatus_setBody (clean_initialResponse request.keepAlive) (by decide) _
    exact ⟨hbytes hframed (by simp [routeNotFound]), rfl⟩
  | some result =>
    obtain ⟨response, services⟩ := result
    cases hfile : response.hasFile with
    | true =>
      simp only [hroute, hfile, if_true] at h ⊢
      exact fileAnswer_of_opensRegular (h _ rfl)
    | false =>
      have hframed := framed_dispatch (clean_initialResponse request.keepAlive) hroute hfile
      simp only [hfile, Bool.false_eq_true, if_false]
      exact ⟨hbytes hframed (connection_dispatch hroute), rfl⟩

theorem nextAnswer_of_not_sendable {env : Env} {session : Session} {request : HttpRequest}
    {path : Bytes} (hpath : path ∈ chosenFile env session request)
    (hopens : opensRegular env path = false) :
    connectionValues (denoteQueue (session.nextAnswer env request).segments) = [] := by
  unfold chosenFile at hpath
  unfold nextAnswer answer
  cases hroute : route env request.keepAlive session.server.clientIp session.services request with
  | none =>
    rw [hroute] at hpath
    exact absurd hpath (by simp)
  | some result =>
    obtain ⟨response, services⟩ := result
    cases hfile : response.hasFile with
    | true =>
      simp only [hroute, hfile, if_true] at hpath ⊢
      obtain rfl := Option.some.inj hpath
      exact fileAnswer_of_not_opensRegular hopens
    | false =>
      rw [hroute] at hpath
      exact absurd hpath (by simp [hfile])

/-! ## Turns -/

/-- The close decision has been taken when the turn ends. -/
def closes (env : Env) (session : Session) : Bool :=
  match processTurn env session with
  | .next session' | .exit session' => session'.server.closeAfterFlush

/-- A response that the turn queues has one `Connection` header, which says whether the close decision
has been taken. -/
def TellsTruth (env : Env) (session : Session) : Prop :=
  (turnSegments env session).isEmpty = false →
    connectionValues (denoteQueue (turnSegments env session)) =
      [if closes env session then lit "close" else lit "keep-alive"]

instance (env : Env) (session : Session) : Decidable (TellsTruth env session) :=
  inferInstanceAs (Decidable (_ → _))

/-- The reasons for a close decision: a parse error, a request that does not keep the connection, or the
output limit. -/
def Last (env : Env) (session : Session) : Prop :=
  (∃ errorCode, HttpRequest.parse session.server.inBuffer = .error errorCode) ∨
    ∃ request consumed, HttpRequest.parse session.server.inBuffer = .ok request consumed ∧
      (request.keepAlive = false ∨ maxOutSegments < session.server.outQueue.length +
        (session.nextAnswer env request).segments.length)

variable (env : Env) {session : Session}

/-- A turn that answers is the last one of its call for one of these reasons. -/
theorem stops_iff (hanswered : HttpRequest.parse session.server.inBuffer ≠ .needMore) :
    stops env session = true ↔ Last env session := by
  unfold Last
  cases hparse : HttpRequest.parse session.server.inBuffer with
  | needMore => exact absurd hparse hanswered
  | error errorCode => exact iff_of_true (turn_of_error env hparse).2 (.inl ⟨errorCode, rfl⟩)
  | ok request consumed =>
    rw [(turn_of_ok env hparse).2]
    constructor
    · exact fun hreason ↦ .inr ⟨request, consumed, rfl, hreason⟩
    · rintro (⟨errorCode, herror⟩ | ⟨request', consumed', heq, hreason⟩)
      · exact absurd herror (by simp)
      · obtain ⟨rfl, -⟩ := Verdict.ok.inj heq
        exact hreason

/-- A call that goes on leaves the close decision as it is. -/
theorem closeAfterFlush_of_next {session' : Session} (h : processTurn env session = .next session') :
    session'.server.closeAfterFlush = session.server.closeAfterFlush := by
  have hturned := processTurn_turned env session
  rw [h] at hturned
  cases hturned with
  | next hparse hkeep => simp [hkeep]

/-- The last turn of a call that answers anything takes the close decision. -/
theorem closeAfterFlush_of_exit {session' : Session} (h : processTurn env session = .exit session')
    (hanswered : HttpRequest.parse session.server.inBuffer ≠ .needMore) :
    session'.server.closeAfterFlush = true := by
  have hturned := processTurn_turned env session
  rw [h] at hturned
  cases hturned with
  | starved hparse => exact absurd hparse hanswered
  | refused => simp [reject_eq]
  | last hparse hkeep => simp [hkeep]
  | full => rfl

theorem closes_of_needMore (h : HttpRequest.parse session.server.inBuffer = .needMore) :
    closes env session = session.server.closeAfterFlush := by
  rw [closes, processTurn_needMore h]

theorem closes_iff_stops (hanswered : HttpRequest.parse session.server.inBuffer ≠ .needMore) :
    closes env session = true ↔ session.server.closeAfterFlush = true ∨ stops env session = true := by
  unfold closes stops
  cases hturn : processTurn env session with
  | next session' => simp [closeAfterFlush_of_next env hturn]
  | exit session' => simp [closeAfterFlush_of_exit env hturn hanswered]

/-- A turn that answers takes the close decision for one of three reasons. -/
theorem closes_iff (hanswered : HttpRequest.parse session.server.inBuffer ≠ .needMore) :
    closes env session = true ↔ session.server.closeAfterFlush = true ∨ Last env session := by
  rw [closes_iff_stops env hanswered, stops_iff env hanswered]

/-- Nothing takes the decision back. -/
theorem closes_of_decided (h : session.server.closeAfterFlush = true) : closes env session = true := by
  by_cases hparse : HttpRequest.parse session.server.inBuffer = .needMore
  · rw [closes_of_needMore env hparse, h]
  · exact (closes_iff_stops env hparse).mpr (.inl h)

/-- While no close is decided, the turns of answers that close are the last turns of their calls. -/
theorem closes_eq_stops (hundecided : session.server.closeAfterFlush = false)
    (hanswered : HttpRequest.parse session.server.inBuffer ≠ .needMore) :
    closes env session = stops env session := by
  rw [Bool.eq_iff_iff, closes_iff_stops env hanswered, hundecided]
  simp

/-- While no close is decided, the turn of a request tells the truth if and only if the request is
untroubled. -/
theorem tellsTruth_iff_of_ok (hundecided : session.server.closeAfterFlush = false)
    {request : HttpRequest} {consumed : ℕ}
    (h : HttpRequest.parse session.server.inBuffer = .ok request consumed) :
    TellsTruth env session ↔ Untroubled env session request := by
  have hanswered := isEmpty_segments_nextAnswer session env request
  obtain ⟨hsegments, hstops⟩ := turn_of_ok env h
  have htruth : TellsTruth env session ↔
      connectionValues (denoteQueue (session.nextAnswer env request).segments) =
        [if stops env session then lit "close" else lit "keep-alive"] := by
    unfold TellsTruth
    rw [hsegments, hanswered, closes_eq_stops env hundecided (by simp [h])]
    exact ⟨fun h ↦ h rfl, fun h _ ↦ h⟩
  rw [htruth]
  by_cases hfile : ∀ path ∈ chosenFile env session request, opensRegular env path = true
  · obtain ⟨hvalues, hlength⟩ := nextAnswer_of_sendable hfile
    rw [hlength] at hstops
    rw [hvalues]
    cases hkeep : request.keepAlive with
    | false =>
      rw [hstops.mpr (.inl hkeep)]
      refine iff_of_true rfl ⟨hfile, fun hkept ↦ ?_⟩
      exact absurd (hkeep.symm.trans hkept) Bool.false_ne_true
    | true =>
      have hne : lit "keep-alive" ≠ lit "close" := by decide
      rw [hkeep] at hstops
      cases hstop : stops env session with
      | false =>
        have hroom := hstops.not.mp (ne_true_of_eq_false hstop)
        exact iff_of_true rfl ⟨hfile, fun _ ↦ Nat.le_of_not_lt (not_or.mp hroom).2⟩
      | true =>
        obtain hnever | hfull := hstops.mp hstop
        · exact absurd hnever (by decide)
        · refine iff_of_false (fun heq ↦ hne (List.singleton_injective heq)) fun huntroubled ↦ ?_
          exact absurd (huntroubled.queue hkeep) (Nat.not_le_of_lt hfull)
  · obtain ⟨path, hpath, hopens⟩ : ∃ path ∈ chosenFile env session request,
        opensRegular env path = false := by simpa using hfile
    rw [nextAnswer_of_not_sendable hpath hopens]
    exact iff_of_false nofun fun huntroubled ↦ hfile huntroubled.file

/-- While no close is decided, a turn tells the truth if and only if its request, if it has one, is
untroubled. -/
theorem tellsTruth_iff (hundecided : session.server.closeAfterFlush = false) :
    TellsTruth env session ↔
      ∀ request consumed, HttpRequest.parse session.server.inBuffer = .ok request consumed →
        Untroubled env session request := by
  cases hparse : HttpRequest.parse session.server.inBuffer with
  | needMore => simp [TellsTruth, turnSegments_of_needMore env hparse]
  | error errorCode =>
    obtain ⟨hsegments, hstops⟩ := turn_of_error env hparse
    have hcode : errorCode ∈ statusCodes := by
      have hcodes := HttpRequest.parse_error_code hparse
      simp only [List.mem_cons, List.not_mem_nil, or_false] at hcodes
      rcases hcodes with rfl | rfl | rfl | rfl <;> decide
    have hvalues := connectionValues_parseErrorResponse hcode
    have hcloses := closes_eq_stops env hundecided (by simp [hparse])
    simp [TellsTruth, hsegments, hcloses, hstops, denoteQueue, denote, hvalues]
  | ok request consumed =>
    rw [tellsTruth_iff_of_ok env hundecided hparse]
    constructor
    · intro huntroubled request' consumed' heq
      obtain ⟨rfl, -⟩ := Verdict.ok.inj heq
      exact huntroubled
    · exact fun h ↦ h request consumed rfl

/-- An environment with or without the file. -/
def fileEnv (opened : Option OpenedFile) : Env := ⟨id, 0, 0, fun _ ↦ opened⟩

/-- The response that fills the queue of a kept connection says that the connection is kept. -/
example : ¬ TellsTruth (fileEnv (some ⟨9, some ⟨true, 5⟩, fun _ ↦ 97⟩))
    { server := { HttpServer.new 7 (lit "10.0.0.1") with
        inBuffer := lit "GET /static/page.html HTTP/1.1\r\n\r\n"
        outQueue := List.replicate 127 (.bytes []) }
      services := ⟨⟨∅⟩, .new, .static⟩
      trace := [] } := by
  decide +kernel

end Session

end WebServer
