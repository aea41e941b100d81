import WebServer.Connection.ConnectionHeader
import WebServer.Service.RouteTable

/-!
# The status line of a response

A response begins with a status code and the reason phrase that `setStatus` finds for it. The table of
`setStatus` lacks two of the codes that the handlers and the router answer with, 403 and 429, so the
responses with these two codes carry the fallback phrase. They are the answers to two kinds of requests,
which can be read off the request and the limiter.
-/

namespace WebServer

open Bytes Search HttpServer OutSegment HttpResponse Execution

/-! ## Standard status lines -/

/-- The documented status codes and their standard reason phrases. -/
def standardPhrases : List (ℕ × Bytes) :=
  [(200, lit "OK"), (400, lit "Bad Request"), (403, lit "Forbidden"), (404, lit "Not Found"),
    (405, lit "Method Not Allowed"), (413, lit "Payload Too Large"), (429, lit "Too Many Requests"),
    (431, lit "Request Header Fields Too Large"), (501, lit "Not Implemented")]

def standardLines : List Bytes := standardPhrases.map fun entry ↦
  lit "HTTP/1.1" ++ lit " " ++ decimal entry.1 ++ lit " " ++ entry.2

/-- The line at the front of a text. -/
def frontLine (text : Bytes) : Bytes := text.take ((find crlf text).getD text.length)

theorem frontLine_line {line : Bytes} (hline : find crlf line = none) (text : Bytes) :
    frontLine (line ++ (crlf ++ text)) = line := by
  rw [frontLine, HeaderBlock.find_crlf_line hline, Option.getD_some, List.take_left]

/-- The codes of the server are the documented ones, and all but two have their standard phrase. -/
theorem statusLine_mem_standardLines : ∀ code ∈ statusCodes,
    (lit "HTTP/1.1" ++ lit " " ++ decimal code ++ lit " " ++ reasonPhrase code ∈ standardLines ↔
      code ≠ 403 ∧ code ≠ 429) := by
  decide

/-- An encoded message begins with the status line of its code. -/
theorem Encodes.frontLine {message : Message} {text : Bytes} (h : Encodes message text) :
    message.statusCode ∈ statusCodes ∧ WebServer.frontLine text = lit "HTTP/1.1" ++ lit " " ++
      decimal message.statusCode ++ lit " " ++ reasonPhrase message.statusCode := by
  obtain ⟨block, rfl, hannounces, hstart, -⟩ := h
  obtain ⟨code, hcode, hline⟩ := List.mem_map.mp hstart
  have hread := hannounces.status
  have hblank : lit "HTTP/1.1 " = lit "HTTP/1.1" ++ lit " " := by decide
  have hsame : Message.readStatus block.startLine = some code :=
    calc
      _ = Message.readStatus (lit "HTTP/1.1 " ++ (decimal code ++ (lit " " ++ reasonPhrase code))) := by
        rw [← hline, hblank]
        simp only [List.append_assoc]
      _ = some code := Message.readStatus_statusLine code (reasonPhrase code)
  obtain rfl := Option.some.inj (hread.symm.trans hsame)
  refine ⟨hcode, ?_⟩
  rw [HeaderBlock.toBytes, HeaderBlock.writeLines_cons, List.append_assoc, List.append_assoc,
    List.append_assoc, frontLine_line (HeaderBlock.find_crlf_eq_none block.cr_notMem_startLine), hline]

theorem Encodes.frontLine_mem_iff {message : Message} {text : Bytes} (h : Encodes message text) :
    WebServer.frontLine text ∈ standardLines ↔
      message.statusCode ≠ 403 ∧ message.statusCode ≠ 429 := by
  rw [h.frontLine.2]
  exact statusLine_mem_standardLines _ h.frontLine.1

namespace Session

/-! ## Refused requests -/

/-- The handler of static files accepts the path of the request, and the limiter admits the request if
its route is limited. -/
structure Admitted (env : Env) (session : Session) (request : HttpRequest) : Prop where
  file : ∀ rel ∈ requestedFile request, ¬ Forbidden rel
  limiter : AsksEcho request → ((env.others session.services).limiter.allow env.now env.cleanupNow
    session.server.clientIp).1 = true

instance (env : Env) (session : Session) (request : HttpRequest) :
    Decidable (Admitted env session request) :=
  decidable_of_iff ((∀ rel ∈ requestedFile request, ¬ Forbidden rel) ∧
    (AsksEcho request → ((env.others session.services).limiter.allow env.now env.cleanupNow
      session.server.clientIp).1 = true)) ⟨fun h ↦ ⟨h.1, h.2⟩, fun h ↦ ⟨h.1, h.2⟩⟩

theorem statusCode_fileMessage (env : Env) (path : Bytes) :
    (fileMessage env path).statusCode ∈ [200, 404] := by
  unfold fileMessage
  split
  · exact List.mem_cons_of_mem _ List.mem_cons_self
  · split
    · exact List.mem_cons_self
    · exact List.mem_cons_of_mem _ List.mem_cons_self

theorem initialResponse_fields (keepAlive : Bool) :
    (initialResponse keepAlive).hasFile = false ∧ (initialResponse keepAlive).statusCode = 200 := by
  cases keepAlive <;> exact ⟨rfl, rfl⟩

section Message

variable {env : Env} {keepAlive : Bool} {clientIp : Bytes} {services : Services}
  {request : HttpRequest} (hpath : request.path.head? = some slash)
include hpath

theorem statusCode_message_of_requestedFile {rel : Bytes} (h : requestedFile request = some rel) :
    (message env keepAlive clientIp services request).statusCode ∈
      if Forbidden rel then [403] else [200, 404] := by
  have hhasFile := (initialResponse_fields keepAlive).1
  rw [message, route, dispatch_of_requestedFile hpath _ _ _ _ _ h]
  split
  · have hrefused : (forbidden (initialResponse keepAlive)).hasFile = false := hhasFile
    dsimp only
    rw [if_neg (by simp [hrefused])]
    exact List.mem_singleton_self 403
  · exact statusCode_fileMessage env _

theorem statusCode_message_of_asksEcho (h : AsksEcho request)
    (hrefused : ((env.others services).limiter.allow env.now env.cleanupNow clientIp).1 = false) :
    (message env keepAlive clientIp services request).statusCode = 429 := by
  have hlimited : (((initialResponse keepAlive).setStatus 429).setBody
      (lit "429 Too Many Requests: rate limit exceeded.")).hasFile = false :=
    (initialResponse_fields keepAlive).1
  rw [message, route, dispatch_of_asksEcho hpath _ _ _ _ _ h hrefused]
  dsimp only
  rw [if_neg (by simp [hlimited])]
  rfl

theorem statusCode_message_of_admitted (hfile : requestedFile request = none)
    (hadmitted : AsksEcho request →
      ((env.others services).limiter.allow env.now env.cleanupNow clientIp).1 = true) :
    (message env keepAlive clientIp services request).statusCode ∈ [200, 404, 405] := by
  obtain ⟨hhasFile, hstatus⟩ := initialResponse_fields keepAlive
  unfold message route
  cases hdispatch : Router.dispatch getRouter request (initialResponse keepAlive) clientIp env.now
      env.cleanupNow (env.others services) with
  | none => exact List.mem_cons_of_mem _ List.mem_cons_self
  | some result =>
    obtain ⟨response, services'⟩ := result
    obtain ⟨hsame, hcode⟩ := dispatch_plainly hpath _ _ _ _ _ hfile hadmitted hdispatch
    rw [hstatus] at hcode
    dsimp only
    rw [if_neg (by simp [hsame, hhasFile])]
    exact hcode

end Message

/-- The answer to a request has one of the two codes just if the request is refused. -/
theorem statusCode_message_iff {env : Env} {session : Session} {request : HttpRequest}
    (hpath : request.path.head? = some slash) {code : ℕ}
    (hcode : (message env request.keepAlive session.server.clientIp session.services
      request).statusCode = code) :
    (code ≠ 403 ∧ code ≠ 429) ↔ Admitted env session request := by
  cases hfile : requestedFile request with
  | some rel =>
    have hmem : code ∈ if Forbidden rel then [403] else [200, 404] :=
      hcode ▸ statusCode_message_of_requestedFile hpath hfile
    by_cases hforbidden : Forbidden rel
    · rw [if_pos hforbidden, List.mem_singleton] at hmem
      exact iff_of_false (fun h ↦ h.1 hmem) fun hadmitted ↦ hadmitted.file rel hfile hforbidden
    · rw [if_neg hforbidden] at hmem
      simp only [List.mem_cons, List.not_mem_nil, or_false] at hmem
      refine iff_of_true (by omega) ⟨fun rel' hrel' ↦ ?_, fun hecho ↦ ?_⟩
      · obtain rfl := Option.some.inj (hfile.symm.trans hrel')
        exact hforbidden
      · obtain ⟨hget, -⟩ := requestedFile_eq_some_iff.mp hfile
        exact absurd (hget.symm.trans hecho.1) (by decide)
  | none =>
    by_cases hadmitted : AsksEcho request → ((env.others session.services).limiter.allow env.now
        env.cleanupNow session.server.clientIp).1 = true
    · have hmem : code ∈ [200, 404, 405] :=
        hcode ▸ statusCode_message_of_admitted hpath hfile hadmitted
      simp only [List.mem_cons, List.not_mem_nil, or_false] at hmem
      exact iff_of_true (by omega) ⟨by simp [hfile], hadmitted⟩
    · obtain ⟨hecho, hrefused⟩ := Classical.not_imp.mp hadmitted
      have hlimited : code = 429 :=
        hcode ▸ statusCode_message_of_asksEcho hpath hecho (by simpa using hrefused)
      exact iff_of_false (fun h ↦ h.2 hlimited) fun h ↦ hadmitted h.limiter

/-! ## Turns -/

/-- A response that the turn queues begins with a standard status line. -/
def AnswersStandardly (env : Env) (session : Session) : Prop :=
  (turnSegments env session).isEmpty = false →
    frontLine (denoteQueue (turnSegments env session)) ∈ standardLines

instance (env : Env) (session : Session) : Decidable (AnswersStandardly env session) :=
  inferInstanceAs (Decidable (_ → _))

/-- A turn answers with a standard status line if and only if it does not refuse its request. -/
theorem answersStandardly_iff (env : Env) (session : Session) :
    AnswersStandardly env session ↔
      ∀ request consumed, HttpRequest.parse session.server.inBuffer = .ok request consumed →
        Admitted env session request := by
  unfold AnswersStandardly
  cases hparse : HttpRequest.parse session.server.inBuffer with
  | needMore => simp [turnSegments_of_needMore env hparse]
  | error errorCode =>
    have hcodes := HttpRequest.parse_error_code hparse
    simp only [List.mem_cons, List.not_mem_nil, or_false] at hcodes
    have hcode : errorCode ∈ statusCodes := by
      rcases hcodes with rfl | rfl | rfl | rfl <;> decide
    have hencodes := encodes_toString (framed_parseErrorResponse hcode)
    have hstandard : frontLine (denoteQueue (turnSegments env session)) ∈ standardLines := by
      rw [(turn_of_error env hparse).1, denoteQueue_cons, denoteQueue_nil, List.append_nil, denote,
        hencodes.frontLine_mem_iff]
      change errorCode ≠ 403 ∧ errorCode ≠ 429
      omega
    exact iff_of_true (fun _ ↦ hstandard) (by simp)
  | ok request consumed =>
    have hencodes := encodes_answer env request.keepAlive session.server.clientIp session.services request
    rw [(turn_of_ok env hparse).1, isEmpty_segments_nextAnswer, nextAnswer, hencodes.frontLine_mem_iff,
      statusCode_message_iff (HttpRequest.parse_path hparse).1 rfl]
    constructor
    · intro hadmitted request' consumed' heq
      obtain ⟨rfl, -⟩ := Verdict.ok.inj heq
      exact hadmitted rfl
    · exact fun h _ ↦ h request consumed rfl

/-! ## Runs -/

/-- The event queues the answers of its turns, and each of them begins with a standard status line. -/
structure QueuesStandardly (session : Session) (event : Event) : Prop where
  queued : queuedSegments (session.step event).trace = queuedSegments session.trace ++
    (session.turnsOf event).flatMap fun turn ↦ turnSegments (turn.2 0) turn.1
  standard : ∀ turn ∈ session.turnsOf event, AnswersStandardly (turn.2 0) turn.1

/-- Along every run of events on a connection in any state, and whatever the services and the files
are, each response that is queued begins with a documented status code and its standard phrase if and
only if no request on the way is refused by the handler of static files or by the limiter. -/
theorem statusLines_standard_iff (session : Session) (events : List Event) :
    Always step QueuesStandardly session events ↔
      Always step (fun session event ↦ ∀ turn ∈ session.turnsOf event, ∀ request consumed,
        HttpRequest.parse turn.1.server.inBuffer = .ok request consumed →
          Admitted (turn.2 0) turn.1 request) session events := by
  have hiff (session : Session) (event : Event) : QueuesStandardly session event ↔
      ∀ turn ∈ session.turnsOf event, ∀ request consumed,
        HttpRequest.parse turn.1.server.inBuffer = .ok request consumed →
          Admitted (turn.2 0) turn.1 request := by
    constructor
    · intro h turn hmem
      exact (answersStandardly_iff (turn.2 0) turn.1).mp (h.standard turn hmem)
    · exact fun h ↦ ⟨queuedSegments_step session event,
        fun turn hmem ↦ (answersStandardly_iff (turn.2 0) turn.1).mpr (h turn hmem)⟩
  exact always_congr (fun _ ↦ True) (fun _ _ ↦ id) (fun session event _ ↦ hiff session event) trivial
    events

/-- A client that asks for the directory above the static root. -/
def dotDotRead : Event :=
  .read [.received (lit "GET /static/.. HTTP/1.1\r\n\r\n")] (fun _ ↦ fileEnv none) fun _ ↦ ⟨100, 0⟩

/-- The refusal of a path that leaves the static root carries the fallback phrase. -/
theorem forbidden_with_fallback_phrase : ¬ ∀ session events,
    Always step QueuesStandardly session events := by
  intro h
  have hstep := h (new 7 (lit "10.0.0.1") ⟨⟨∅⟩, .new, .static⟩) [dotDotRead]
  have hstandard := hstep.1.standard _ (List.mem_cons_self)
  exact absurd hstandard (by decide)

/-- So does the answer to a request that the limiter does not admit. -/
example : ¬ AnswersStandardly (fileEnv none)
    { server := { HttpServer.new 7 (lit "10.0.0.1") with
        inBuffer := lit "POST /echo HTTP/1.1\r\nContent-Length: 0\r\n\r\n" }
      services := ⟨⟨∅⟩, { RateLimiter.new with
        buckets := AList.singleton (lit "10.0.0.1") ⟨0, 0⟩ }, .static⟩
      trace := [] } := by
  decide +kernel

end Session

end WebServer
