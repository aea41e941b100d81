import WebServer.Service.KVRouting
import WebServer.Service.Routing
import WebServer.Service.StaticPaths

/-!
# What the route table answers

Most handlers answer with a body under the status they find, or with 404. Two refusals are different:
the handler of static files refuses some relative paths with 403, and the router refuses with 429 what
the limiter does not admit to the rate-limited route. Which requests come to these two routes, and with
which relative path, is read off the method and the components of the path.
-/

namespace WebServer

open Bytes Search

/-! ## The two routes -/

/-- The relative path a request for a static file asks for: the components behind "static", joined
again and decoded. -/
def requestedFile (request : HttpRequest) : Option Bytes :=
  match components request.path with
  | [] => none
  | first :: rest =>
    if request.method = lit "GET" ∧ first = lit "static" then
      some (urlDecode (List.intercalate [slash] rest))
    else none

/-- The relative paths that the handler of static files refuses. -/
def Forbidden (rel : Bytes) : Prop :=
  rel = [] ∨ rel.head? = some slash ∨ lit ".." ∈ rel.splitOn slash

instance (rel : Bytes) : Decidable (Forbidden rel) := inferInstanceAs (Decidable (_ ∨ _ ∨ _))

/-- The request comes to the rate-limited route. -/
def AsksEcho (request : HttpRequest) : Prop :=
  request.method = lit "POST" ∧ components request.path = [lit "echo"]

instance (request : HttpRequest) : Decidable (AsksEcho request) :=
  inferInstanceAs (Decidable (_ ∧ _))

theorem requestedFile_eq_some_iff {request : HttpRequest} {rel : Bytes} :
    requestedFile request = some rel ↔
      request.method = lit "GET" ∧ ∃ rest, components request.path = lit "static" :: rest ∧
        rel = urlDecode (List.intercalate [slash] rest) := by
  unfold requestedFile
  cases components request.path with
  | nil => simp
  | cons first rest =>
    dsimp only
    split
    · rename_i hroute
      obtain ⟨hmethod, rfl⟩ := hroute
      simp [hmethod, eq_comm]
    · rename_i hroute
      refine iff_of_false (by simp) ?_
      rintro ⟨hmethod, rest', hcomponents, -⟩
      exact hroute ⟨hmethod, (List.cons.inj hcomponents).1⟩

/-- The handler of static files, without its loop. -/
theorem staticFileHandler_cons (request : HttpRequest) (param : Bytes) (params : List Bytes)
    (services : Services) (response : HttpResponse) :
    staticFileHandler request (param :: params) services response =
      (if Forbidden (urlDecode param) then forbidden response
        else response.setFile (services.staticRoot.path ++ lit "/" ++ urlDecode param), services) := by
  have hloop : (dotDotLoop (urlDecode param)).run 0 =
      decide (lit ".." ∈ (urlDecode param).splitOn slash) := dotDotLoop_run [] (urlDecode param)
  unfold staticFileHandler
  dsimp only
  rw [hloop]
  by_cases hfront : urlDecode param = [] ∨ (urlDecode param).head? = some slash
  · have hforbidden : Forbidden (urlDecode param) := hfront.imp_right .inl
    rw [if_pos hfront, if_pos hforbidden]
  · rw [if_neg hfront]
    by_cases hdots : lit ".." ∈ (urlDecode param).splitOn slash
    · have hforbidden : Forbidden (urlDecode param) := .inr (.inr hdots)
      rw [if_pos (decide_eq_true hdots), if_pos hforbidden]
    · have hallowed : ¬ Forbidden (urlDecode param) := by
        rintro (hnil | hslash | hmem)
        · exact hfront (.inl hnil)
        · exact hfront (.inr hslash)
        · exact hdots hmem
      rw [if_neg (by simpa using hdots), if_neg hallowed]

namespace Router

theorem mem_of_select {routes : List Route} {method : Bytes} {pathSegs : List Bytes} {route : Route}
    (h : select routes method pathSegs = .route route) :
    route ∈ routes ∧ route.Matches pathSegs ∧ route.method = method := by
  unfold select at h
  split at h
  · rename_i found hfind
    obtain rfl := Selection.route.inj h
    exact ⟨List.mem_of_find?_eq_some hfind, by simpa using List.find?_some hfind⟩
  · split at h <;> exact absurd h (by simp)

theorem select_static (rest : List Bytes) :
    select getRouter (lit "GET") (lit "static" :: rest) =
      .route ⟨lit "GET", [lit "static"], true, false, staticFileHandler⟩ := by
  have hhome : ¬ (Route.mk (lit "GET") [] false false homeHandler).Matches (lit "static" :: rest) := by
    simp [Route.Matches]
  have habout : ¬ (Route.mk (lit "GET") [lit "about"] false false aboutHandler).Matches
      (lit "static" :: rest) := by
    rw [Route.Matches, covers_cons]
    exact fun h ↦ absurd h.1.1 (by decide)
  have hstatic : (Route.mk (lit "GET") [lit "static"] true false staticFileHandler).Matches
      (lit "static" :: rest) := by
    rw [Route.Matches, covers_cons]
    exact ⟨⟨.inr rfl, Nat.zero_le _, by simp⟩, .inl rfl⟩
  rw [getRouter_eq, select_cons, if_neg fun h ↦ hhome h.1, select_cons, if_neg fun h ↦ habout h.1,
    select_cons, if_pos ⟨hstatic, rfl⟩]

theorem select_echo : select getRouter (lit "POST") [lit "echo"] =
    .route ⟨lit "POST", [lit "echo"], false, true, echoHandler⟩ := by
  rfl

end Router

/-! ## The other handlers -/

/-- A handler that answers without a file, under the status it finds or with 404. -/
def Handler.AnswersPlainly (handler : Handler) : Prop :=
  ∀ request params services response,
    (handler request params services response).1.hasFile = response.hasFile ∧
      ((handler request params services response).1.statusCode = response.statusCode ∨
        (handler request params services response).1.statusCode = 404)

theorem answersPlainly_kvPutHandler : Handler.AnswersPlainly kvPutHandler := by
  intro request params services response
  unfold kvPutHandler
  split
  · exact ⟨rfl, .inr rfl⟩
  · exact ⟨rfl, .inl rfl⟩

theorem answersPlainly_kvGetHandler : Handler.AnswersPlainly kvGetHandler := by
  intro request params services response
  unfold kvGetHandler
  split
  · exact ⟨rfl, .inr rfl⟩
  · split
    · exact ⟨rfl, .inl rfl⟩
    · exact ⟨rfl, .inr rfl⟩

theorem answersPlainly_kvDeleteHandler : Handler.AnswersPlainly kvDeleteHandler := by
  intro request params services response
  unfold kvDeleteHandler
  split
  · exact ⟨rfl, .inr rfl⟩
  · dsimp only
    split
    · exact ⟨rfl, .inl rfl⟩
    · exact ⟨rfl, .inr rfl⟩

/-- The routes of the table are the route of static files, the rate-limited one, and routes that answer
plainly. -/
theorem getRouter_cases {route : Route} (h : route ∈ getRouter) :
    route = ⟨lit "GET", [lit "static"], true, false, staticFileHandler⟩ ∨
      route = ⟨lit "POST", [lit "echo"], false, true, echoHandler⟩ ∨
        (route.rateLimited = false ∧ route.handler.AnswersPlainly) := by
  have hbody {handler : Handler} {text : HttpRequest → Services → Bytes}
      (hhandler : ∀ request params services response,
        handler request params services response = (response.setBody (text request services), services)) :
      handler.AnswersPlainly := by
    intro request params services response
    rw [hhandler]
    exact ⟨rfl, .inl rfl⟩
  rw [getRouter_eq] at h
  simp only [List.mem_cons, List.not_mem_nil, or_false] at h
  obtain rfl | rfl | rfl | rfl | rfl | rfl | rfl | rfl := h
  · exact .inr (.inr ⟨rfl, hbody fun _ _ _ _ ↦ rfl⟩)
  · exact .inr (.inr ⟨rfl, hbody fun _ _ _ _ ↦ rfl⟩)
  · exact .inl rfl
  · exact .inr (.inr ⟨rfl, answersPlainly_kvPutHandler⟩)
  · exact .inr (.inr ⟨rfl, answersPlainly_kvGetHandler⟩)
  · exact .inr (.inr ⟨rfl, answersPlainly_kvDeleteHandler⟩)
  · exact .inr (.inr ⟨rfl, hbody fun _ _ _ _ ↦ rfl⟩)
  · exact .inr (.inl rfl)

/-- The route of static files is reached by requests for a file only. -/
theorem requestedFile_ne_none_of_matches {request : HttpRequest}
    (hmethod : lit "GET" = request.method)
    (hmatches : Route.Matches ⟨lit "GET", [lit "static"], true, false, staticFileHandler⟩
      (components request.path)) : requestedFile request ≠ none := by
  cases hcomponents : components request.path with
  | nil =>
    rw [hcomponents] at hmatches
    exact absurd hmatches.1.1 (by decide)
  | cons first rest =>
    rw [hcomponents, Route.Matches, covers_cons] at hmatches
    obtain hcolon | rfl := hmatches.1.1
    · exact absurd hcolon (by decide)
    · rw [requestedFile_eq_some_iff.mpr ⟨hmethod.symm, rest, hcomponents, rfl⟩]
      exact Option.some_ne_none _

theorem asksEcho_of_matches {request : HttpRequest} (hmethod : lit "POST" = request.method)
    (hmatches : Route.Matches ⟨lit "POST", [lit "echo"], false, true, echoHandler⟩
      (components request.path)) : AsksEcho request := by
  refine ⟨hmethod.symm, ?_⟩
  obtain ⟨hcovers, hlength⟩ := hmatches
  obtain ⟨first, hfirst⟩ := List.length_eq_one_iff.mp (hlength.resolve_left (by simp))
  rw [hfirst, covers_cons] at hcovers
  obtain hcolon | hsame := hcovers.1
  · exact absurd hcolon (by decide)
  · rw [hfirst, ← hsame]

/-! ## The three answers -/

section Dispatch

variable {request : HttpRequest} (hpath : request.path.head? = some slash) (response : HttpResponse)
  (clientIp : Bytes) (now cleanupNow : Time) (services : Services)
include hpath

theorem dispatch_of_requestedFile {rel : Bytes} (h : requestedFile request = some rel) :
    Router.dispatch getRouter request response clientIp now cleanupNow services =
      some (if Forbidden rel then forbidden response
        else response.setFile (services.staticRoot.path ++ lit "/" ++ rel), services) := by
  obtain ⟨hmethod, rest, hcomponents, rfl⟩ := requestedFile_eq_some_iff.mp h
  have hparams : Route.params ⟨lit "GET", [lit "static"], true, false, staticFileHandler⟩
      (lit "static" :: rest) = [List.intercalate [slash] rest] := rfl
  rw [Router.dispatch_eq_answer _ _ hpath, hmethod, hcomponents, Router.select_static]
  simp only [Router.answer, Bool.false_eq_true, if_false, hparams, staticFileHandler_cons]

theorem dispatch_of_asksEcho (h : AsksEcho request)
    (hrefused : (services.limiter.allow now cleanupNow clientIp).1 = false) :
    Router.dispatch getRouter request response clientIp now cleanupNow services =
      some ((response.setStatus 429).setBody (lit "429 Too Many Requests: rate limit exceeded."),
        { services with limiter := (services.limiter.allow now cleanupNow clientIp).2 }) := by
  obtain ⟨hmethod, hcomponents⟩ := h
  rw [Router.dispatch_eq_answer _ _ hpath, hmethod, hcomponents, Router.select_echo]
  simp only [Router.answer, if_true, hrefused, Bool.false_eq_true, if_false]

/-- Without these two refusals a request is answered without a file, and under the status of the given
response, with 404 or with 405. -/
theorem dispatch_plainly (hfile : requestedFile request = none)
    (hadmitted : AsksEcho request → (services.limiter.allow now cleanupNow clientIp).1 = true)
    {response' : HttpResponse} {services' : Services}
    (h : Router.dispatch getRouter request response clientIp now cleanupNow services =
      some (response', services')) :
    response'.hasFile = response.hasFile ∧
      response'.statusCode ∈ [response.statusCode, 404, 405] := by
  rw [Router.dispatch_eq_answer _ _ hpath] at h
  cases hselect : Router.select getRouter request.method (components request.path) with
  | noRoute =>
    rw [hselect] at h
    exact absurd h (by simp [Router.answer])
  | methodNotAllowed =>
    rw [hselect] at h
    obtain ⟨rfl, -⟩ := Prod.mk.inj (Option.some.inj h)
    exact ⟨rfl, by simp [HttpResponse.setBody, HttpResponse.setStatus, HttpResponse.addHeader]⟩
  | route route =>
    obtain ⟨hmem, hmatches, hmethod⟩ := Router.mem_of_select hselect
    rw [hselect] at h
    obtain rfl | rfl | ⟨hlimited, hplain⟩ := getRouter_cases hmem
    · exact absurd hfile (requestedFile_ne_none_of_matches hmethod hmatches)
    · have hecho : AsksEcho request := asksEcho_of_matches hmethod hmatches
      simp only [Router.answer, if_true, hadmitted hecho, Option.some.injEq] at h
      obtain ⟨rfl, -⟩ := Prod.mk.inj h
      exact ⟨rfl, List.mem_cons_self⟩
    · simp only [Router.answer, hlimited, Bool.false_eq_true, if_false, Option.some.injEq] at h
      obtain ⟨hhasFile, hstatus⟩ := hplain request (route.params (components request.path)) services
        response
      rw [h] at hhasFile hstatus
      dsimp only at hhasFile hstatus
      refine ⟨hhasFile, ?_⟩
      obtain hsame | hnotFound := hstatus
      · exact hsame ▸ List.mem_cons_self
      · rw [hnotFound]
        simp

/-- A request that does not ask for a static file is answered without a file. -/
theorem dispatch_without_file (hfile : requestedFile request = none)
    {response' : HttpResponse} {services' : Services}
    (h : Router.dispatch getRouter request response clientIp now cleanupNow services =
      some (response', services')) : response'.hasFile = response.hasFile := by
  by_cases hadmitted : AsksEcho request → (services.limiter.allow now cleanupNow clientIp).1 = true
  · exact (dispatch_plainly hpath response clientIp now cleanupNow services hfile hadmitted h).1
  · obtain ⟨hecho, hrefused⟩ := Classical.not_imp.mp hadmitted
    rw [dispatch_of_asksEcho hpath response clientIp now cleanupNow services hecho
      (by simpa using hrefused)] at h
    obtain ⟨rfl, -⟩ := Prod.mk.inj (Option.some.inj h)
    rfl

end Dispatch

end WebServer
