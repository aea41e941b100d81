import WebServer.Http.Response
import WebServer.Http.ResponseDecoder
import WebServer.Service.Handlers

/-!
# The header part of responses

Every header the server sets has a name and a value from a fixed table, except `Content-Length`, whose
value is a decimal number. A response whose headers are such, with a `Content-Length` that equals the
length of the body that goes with it, is written as a header block that announces this body. All
handlers, and the answers of the router itself, leave such responses.
-/

namespace WebServer

open Bytes HeaderBlock

namespace HttpResponse

/-! ## The table -/

/-- The status codes the server answers with. -/
def statusCodes : List ℕ := [200, 400, 403, 404, 405, 413, 429, 431, 501]

/-- The media types of file responses. -/
def mimeTypes : List Bytes := lit "application/octet-stream" :: mimeTable.map Prod.snd

/-- The headers the server sets, other than `Content-Length`. -/
def headerTable : List (Bytes × Bytes) :=
  [(lit "Content-Type", lit "text/plain; charset=utf-8"), (lit "Connection", lit "keep-alive"),
    (lit "Connection", lit "close"), (lit "Keep-Alive", lit "timeout=30")] ++
    mimeTypes.map fun mime ↦ (lit "Content-Type", mime)

/-- The lines a header part can consist of when its body has `length` bytes. -/
def headerLines (length : ℕ) : List Bytes :=
  (lit "Content-Length: " ++ decimal length) :: headerTable.map headerLine

theorem mimeType_mem (path : Bytes) : mimeType path ∈ mimeTypes := by
  have hlookup (ext : Bytes) (table : List (Bytes × Bytes)) (default : Bytes) :
      (table.lookup ext).getD default ∈ default :: table.map Prod.snd := by
    induction table with
    | nil => simp
    | cons entry table ih =>
      rw [List.lookup_cons]
      split
      · simp
      · rcases List.mem_cons.mp ih with hdefault | hmem
        · simp [hdefault]
        · simp [hmem]
  unfold mimeType
  split
  · exact hlookup _ mimeTable _
  · exact List.mem_cons_self

theorem mem_headerTable_mimeType (path : Bytes) :
    (lit "Content-Type", mimeType path) ∈ headerTable :=
  List.mem_append_right _ (List.mem_map.mpr ⟨_, mimeType_mem path, rfl⟩)

theorem cr_notMem_headerTable : ∀ header ∈ headerTable, cr ∉ headerLine header := by
  decide

theorem isContentLength_headerTable :
    ∀ header ∈ headerTable, Message.isContentLength (headerLine header) = false := by
  decide

theorem contentLength_notMem_headerTable :
    ∀ header ∈ headerTable, header.1 ≠ lit "Content-Length" := by
  decide

theorem cr_notMem_reasonPhrase : ∀ statusCode ∈ statusCodes, cr ∉ reasonPhrase statusCode := by
  decide

/-! ## Responses with table headers -/

/-- The headers of a response come from the table; `Content-Length` may be there as well. -/
structure Clean (response : HttpResponse) : Prop where
  version : response.version = lit "HTTP/1.1"
  statusCode : response.statusCode ∈ statusCodes
  statusMessage : response.statusMessage = reasonPhrase response.statusCode
  headers : ∀ key value, response.headers[key]? = some value →
    (key, value) ∈ headerTable ∨ key = lit "Content-Length"

/-- A clean response whose `Content-Length` is `length`. -/
structure Framed (response : HttpResponse) (length : ℕ) : Prop extends Clean response where
  contentLength : response.headers[lit "Content-Length"]? = some (decimal length)

variable {response : HttpResponse} {length : ℕ}

theorem clean_new : Clean new where
  version := rfl
  statusCode := by decide
  statusMessage := rfl
  headers := by simp [new]

theorem Clean.setStatus (h : Clean response) {code : ℕ} (hcode : code ∈ statusCodes) :
    Clean (response.setStatus code) :=
  ⟨h.version, hcode, rfl, h.headers⟩

theorem Clean.addHeader (h : Clean response) {key value : Bytes}
    (hheader : (key, value) ∈ headerTable ∨ key = lit "Content-Length") :
    Clean (response.addHeader key value) := by
  refine ⟨h.version, h.statusCode, h.statusMessage, fun key' value' hget ↦ ?_⟩
  rw [HttpResponse.addHeader, Std.ExtTreeMap.getElem?_insert] at hget
  split at hget
  · rename_i heq
    obtain rfl := Std.LawfulEqCmp.eq_of_compare heq
    obtain rfl := Option.some.inj hget
    exact hheader
  · exact h.headers key' value' hget

/-- Setting the body frames the response. -/
theorem Clean.setBody (h : Clean response) (body : Bytes) :
    Framed (response.setBody body) body.length where
  toClean :=
    have hbody : Clean { response with body := body } :=
      ⟨h.version, h.statusCode, h.statusMessage, h.headers⟩
    hbody.addHeader (.inr rfl)
  contentLength := by simp [HttpResponse.setBody, HttpResponse.addHeader]

theorem Framed.addHeader (h : Framed response length) {key value : Bytes}
    (hheader : (key, value) ∈ headerTable) : Framed (response.addHeader key value) length where
  toClean := h.toClean.addHeader (.inl hheader)
  contentLength := by
    have hne := contentLength_notMem_headerTable _ hheader
    rw [HttpResponse.addHeader, Std.ExtTreeMap.getElem?_insert, if_neg, h.contentLength]
    exact fun heq ↦ hne (Std.LawfulEqCmp.eq_of_compare heq)

/-! ## Their header blocks -/

theorem cr_notMem_decimal (n : ℕ) : cr ∉ decimal n := notMem_decimal rfl

/-- A header line of a framed response is in the table or is its `Content-Length` line. -/
theorem Framed.mem_headerLines (h : Framed response length) {header : Bytes × Bytes}
    (hmem : header ∈ response.headers.toList) : headerLine header ∈ headerLines length := by
  obtain ⟨key, value⟩ := header
  have hget := Std.ExtTreeMap.mem_toList_iff_getElem?_eq_some.mp hmem
  rcases h.headers key value hget with htable | rfl
  · exact List.mem_cons_of_mem _ (List.mem_map_of_mem htable)
  · obtain rfl := Option.some.inj (hget.symm.trans h.contentLength)
    exact List.mem_cons_self

theorem cr_notMem_headerLines {line : Bytes} (hmem : line ∈ headerLines length) : cr ∉ line := by
  rcases List.mem_cons.mp hmem with rfl | htable
  · rw [List.mem_append, not_or]
    exact ⟨by decide, cr_notMem_decimal length⟩
  · obtain ⟨header, hheader, rfl⟩ := List.mem_map.mp htable
    exact cr_notMem_headerTable header hheader

theorem headerLine_ne_nil (header : Bytes × Bytes) : headerLine header ≠ [] := by
  have hcolon : lit ": " ≠ [] := by decide
  simp [headerLine, hcolon]

/-- The header part of a framed response. -/
def headerBlock (response : HttpResponse) (length : ℕ) (h : Framed response length) :
    HeaderBlock where
  startLine := response.statusLine
  fieldLines := response.headers.toList.map headerLine
  startLine_ne_nil := by
    have hblank : lit " " ≠ [] := by decide
    simp [statusLine, hblank]
  fieldLines_ne_nil := by
    intro line hmem
    obtain ⟨header, -, rfl⟩ := List.mem_map.mp hmem
    exact headerLine_ne_nil header
  cr_notMem_startLine := by
    have hversion : cr ∉ lit "HTTP/1.1" := by decide
    have hblank : cr ∉ lit " " := by decide
    have hreason := cr_notMem_reasonPhrase _ h.statusCode
    simp [statusLine, h.version, h.statusMessage, hversion, hblank, hreason, cr_notMem_decimal]
  cr_notMem_fieldLines := by
    intro line hmem
    obtain ⟨header, hheader, rfl⟩ := List.mem_map.mp hmem
    exact cr_notMem_headerLines (h.mem_headerLines hheader)

theorem toStringHeaders_eq (h : Framed response length) :
    response.toStringHeaders = (headerBlock response length h).toBytes := by
  simp [toStringHeaders, headerBlock, toBytes, writeLines, List.flatMap_map]

/-- The names of a header map are distinct, so a test for one name finds one header or none. -/
theorem filter_toList_eq (headers : StringMap) (name : Bytes) {test : Bytes × Bytes → Bool}
    (htest : ∀ header ∈ headers.toList, test header = true ↔ header.1 = name) :
    headers.toList.filter test = (headers[name]?.map fun value ↦ (name, value)).toList := by
  cases hget : headers[name]? with
  | none =>
    refine List.filter_eq_nil_iff.mpr fun header hmem hname ↦ ?_
    obtain ⟨key, value⟩ := header
    obtain rfl : key = name := (htest _ hmem).mp hname
    have hsome := Std.ExtTreeMap.mem_toList_iff_getElem?_eq_some.mp hmem
    exact absurd (hget.symm.trans hsome) (by simp)
  | some value =>
    have hmem : (name, value) ∈ headers.toList :=
      Std.ExtTreeMap.mem_toList_iff_getElem?_eq_some.mpr hget
    have hnodup : headers.toList.Nodup :=
      Std.ExtTreeMap.distinct_keys_toList.imp fun hne heq ↦ hne (by simp [heq])
    have hfilter : headers.toList.filter test = headers.toList.filter (· == (name, value)) := by
      refine List.filter_congr fun header hheader ↦ Bool.eq_iff_iff.mpr ?_
      rw [htest header hheader, beq_iff_eq]
      constructor
      · rintro rfl
        have hsome := Std.ExtTreeMap.mem_toList_iff_getElem?_eq_some.mp hheader
        exact Prod.ext rfl (Option.some.inj (hsome.symm.trans hget))
      · rintro rfl
        rfl
    rw [hfilter, List.filter_beq, List.count_eq_one_of_mem hnodup hmem]
    rfl

/-- The distinct names of a header map leave exactly one `Content-Length` line. -/
theorem Framed.filter_isContentLength (h : Framed response length) :
    (response.headers.toList.map headerLine).filter Message.isContentLength =
      [lit "Content-Length: " ++ decimal length] := by
  rw [List.filter_map, filter_toList_eq response.headers (lit "Content-Length"), h.contentLength]
  · rfl
  · intro header hmem
    obtain ⟨key, value⟩ := header
    have hget := Std.ExtTreeMap.mem_toList_iff_getElem?_eq_some.mp hmem
    obtain htable | rfl := h.headers key value hget
    · have hother := contentLength_notMem_headerTable _ htable
      simp only [Function.comp_apply, isContentLength_headerTable _ htable, Bool.false_eq_true,
        hother]
    · have hline : headerLine (lit "Content-Length", value) = lit "Content-Length: " ++ value := rfl
      rw [Function.comp_apply, hline]
      exact iff_of_true (List.isPrefixOf_iff_prefix.mpr (List.prefix_append ..)) rfl

/-- A framed response announces a body of its length. -/
theorem Framed.announces {message : Message} (h : Framed response message.body.length)
    (hstatus : response.statusCode = message.statusCode) :
    Message.Announces (headerBlock response message.body.length h) message where
  status := by
    have hsplit : lit "HTTP/1.1 " = lit "HTTP/1.1" ++ lit " " := by decide
    have hread := Message.readStatus_statusLine response.statusCode response.statusMessage
    have hline : (headerBlock response message.body.length h).startLine =
        lit "HTTP/1.1 " ++ (decimal response.statusCode ++ (lit " " ++ response.statusMessage)) := by
      change response.statusLine = _
      rw [statusLine, h.version, hsplit]
      simp only [List.append_assoc]
    rw [hline, hread, hstatus]
  contentLength := h.filter_isContentLength

end HttpResponse

open HttpResponse

/-! ## Handlers and router -/

/-- A handler that leaves a response with a body leaves a framed one. -/
def Handler.IsFramed (handler : Handler) : Prop :=
  ∀ request params services response, Clean response →
    (handler request params services response).1.hasFile = false →
    Framed (handler request params services response).1
      (handler request params services response).1.body.length

section Handlers

theorem framed_setStatus_setBody {response : HttpResponse} (h : Clean response) {code : ℕ}
    (hcode : code ∈ statusCodes) (body : Bytes) :
    Framed ((response.setStatus code).setBody body) body.length :=
  (h.setStatus hcode).setBody body

theorem framed_notFound {response : HttpResponse} (h : Clean response) :
    Framed (notFound response) (notFound response).body.length :=
  framed_setStatus_setBody h (by decide) _

theorem isFramed_homeHandler : Handler.IsFramed homeHandler :=
  fun _ _ _ _ h _ ↦ h.setBody _

theorem isFramed_aboutHandler : Handler.IsFramed aboutHandler :=
  fun _ _ _ _ h _ ↦ h.setBody _

theorem isFramed_echoHandler : Handler.IsFramed echoHandler :=
  fun _ _ _ _ h _ ↦ h.setBody _

theorem isFramed_kvListHandler : Handler.IsFramed kvListHandler :=
  fun _ _ _ _ h _ ↦ h.setBody _

theorem isFramed_staticFileHandler : Handler.IsFramed staticFileHandler := by
  intro request params services response h hfile
  unfold staticFileHandler at hfile ⊢
  split
  · exact framed_setStatus_setBody h (by decide) _
  · dsimp only at hfile ⊢
    split at hfile
    · rename_i hempty
      rw [if_pos hempty]
      exact framed_setStatus_setBody h (by decide) _
    · rename_i hempty
      rw [if_neg hempty]
      split at hfile
      · rename_i hdots
        rw [if_pos hdots]
        exact framed_setStatus_setBody h (by decide) _
      · exact absurd hfile (by simp [setFile])

theorem isFramed_kvPutHandler : Handler.IsFramed kvPutHandler := by
  intro request params services response h _
  unfold kvPutHandler
  split
  · exact framed_notFound h
  · exact h.setBody _

theorem isFramed_kvGetHandler : Handler.IsFramed kvGetHandler := by
  intro request params services response h _
  unfold kvGetHandler
  split
  · exact framed_notFound h
  · split
    · exact h.setBody _
    · exact framed_notFound h

theorem isFramed_kvDeleteHandler : Handler.IsFramed kvDeleteHandler := by
  intro request params services response h _
  unfold kvDeleteHandler
  split
  · exact framed_notFound h
  · dsimp only
    split
    · exact h.setBody _
    · exact framed_notFound h

end Handlers

theorem isFramed_getRouter : ∀ route ∈ getRouter, Handler.IsFramed route.handler :=
  forall_mem_getRouter isFramed_homeHandler isFramed_aboutHandler isFramed_staticFileHandler
    isFramed_kvPutHandler isFramed_kvGetHandler isFramed_kvDeleteHandler isFramed_kvListHandler
    isFramed_echoHandler

/-- The router only adds responses of its own that are framed. -/
theorem framed_dispatch {request : HttpRequest} {clientIp : Bytes} {now cleanupNow : Time}
    {services services' : Services} {response response' : HttpResponse} (hclean : Clean response)
    (hdispatch : Router.dispatch getRouter request response clientIp now cleanupNow services =
      some (response', services')) (hfile : response'.hasFile = false) :
    Framed response' response'.body.length := by
  rcases Router.dispatchRoutes_cases hdispatch with
    ⟨code, text, hcode, hrouter⟩ | ⟨route, hmem, params, limiter, hhandler⟩
  · obtain rfl : response' = (response.setStatus code).setBody text := hrouter
    exact framed_setStatus_setBody hclean (by rcases hcode with rfl | rfl <;> decide) text
  · have hframed := isFramed_getRouter route hmem request params
      { services with limiter := limiter } response hclean
    rw [← hhandler] at hframed
    exact hframed hfile

end WebServer
