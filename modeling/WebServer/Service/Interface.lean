import WebServer.Service.KVRouting
import WebServer.Service.Routing
import WebServer.Service.StaticPaths

/-!
# What the server is asked for

To a client the routes are a list of operations: two pages, the files below the static root, the calls
on the store and its listing, and an echo that is paid for with a token. `operationOf` says which of them
a request is, from its method and the components of its path, and `Operation.perform` what it does.
-/

namespace WebServer

open Bytes

inductive Operation where
  | page (text : Bytes)
  | file (rel : Bytes)
  | forbidden
  | call (call : MapCall Bytes Bytes)
  | list
  | echo (text : Bytes)
  | methodNotAllowed
  | notFound

/-- An operation that there is for one method only. -/
def onlyFor (allowed method : Bytes) (operation : Operation) : Operation :=
  if allowed = method then operation else .methodNotAllowed

/-- Reading the file that the decoded rest of a static path names. -/
def fileOperation (rel : Bytes) : Operation :=
  if rel = [] ∨ rel.head? = some slash ∨ lit ".." ∈ rel.splitOn slash then .forbidden else .file rel

def keyOperation (method key value : Bytes) : Operation :=
  if method = lit "PUT" then .call (.put key value)
  else if method = lit "GET" then .call (.get key)
  else if method = lit "DELETE" then .call (.delete key)
  else .methodNotAllowed

def pathOperation (method body : Bytes) : List Bytes → Operation
  | [] => onlyFor (lit "GET") method (.page (lit "Hello, World! This is the home page."))
  | first :: rest =>
    if first = lit "static" then
      onlyFor (lit "GET") method (fileOperation (urlDecode (List.intercalate [slash] rest)))
    else
      match rest with
      | [] =>
        if first = lit "about" then
          onlyFor (lit "GET") method (.page (lit "About Us: This is a simple HTTP server."))
        else if first = lit "kv" then onlyFor (lit "GET") method .list
        else if first = lit "echo" then onlyFor (lit "POST") method (.echo body)
        else .notFound
      | [key] => if first = lit "kv" then keyOperation method key body else .notFound
      | _ => .notFound

def operationOf (request : HttpRequest) : Operation :=
  pathOperation request.method request.body (components request.path)

namespace Operation

/-- The response and the services behind an operation; `none` is left to the caller of the router. -/
def perform (clientIp : Bytes) (now cleanupNow : Time) (services : Services)
    (response : HttpResponse) : Operation → Option (HttpResponse × Services)
  | page text => some (response.setBody text, services)
  | file rel => some (response.setFile (services.staticRoot.path ++ lit "/" ++ rel), services)
  | forbidden => some (WebServer.forbidden response, services)
  | call (.put key value) =>
    some (response.setBody (lit "ok"), { services with kv := services.kv.put key value })
  | call (.get key) =>
    some ((services.kv.get key).elim (WebServer.notFound response) response.setBody, services)
  | call (.delete key) =>
    some (if (services.kv.get key).isSome then response.setBody (lit "deleted")
      else WebServer.notFound response, { services with kv := (services.kv.del key).2 })
  | list => some (response.setBody services.kv.dump, services)
  | echo text =>
    let asked := services.limiter.allow now cleanupNow clientIp
    some (if asked.1 then response.setBody (lit "Received POST data: " ++ text)
      else (response.setStatus 429).setBody (lit "429 Too Many Requests: rate limit exceeded."),
      { services with limiter := asked.2 })
  | methodNotAllowed =>
    some ((response.setStatus 405).setBody
      (lit "405 Method Not Allowed: The requested method is not supported."), services)
  | notFound => none

end Operation

/-! ## The handlers perform the operations -/

section Handlers

variable (clientIp : Bytes) (now cleanupNow : Time) (services : Services) (response : HttpResponse)
  (request : HttpRequest)

theorem staticFileHandler_perform (param : Bytes) :
    some (staticFileHandler request [param] services response) =
      (fileOperation (urlDecode param)).perform clientIp now cleanupNow services response := by
  have hguard : (dotDotLoop (urlDecode param)).run 0 = true ↔
      lit ".." ∈ (urlDecode param).splitOn slash := by
    rw [show (dotDotLoop (urlDecode param)).run 0 = _ from dotDotLoop_run [] (urlDecode param),
      decide_eq_true_iff]
  unfold staticFileHandler fileOperation
  simp only [hguard, ← or_assoc]
  by_cases hplain : urlDecode param = [] ∨ (urlDecode param).head? = some slash
  · rw [if_pos hplain, if_pos (.inl hplain)]
    rfl
  · by_cases hdots : lit ".." ∈ (urlDecode param).splitOn slash
    · rw [if_neg hplain, if_pos hdots, if_pos (.inr hdots)]
      rfl
    · rw [if_neg hplain, if_neg hdots, if_neg (not_or.mpr ⟨hplain, hdots⟩)]
      rfl

theorem kvGetHandler_perform (key : Bytes) :
    some (kvGetHandler request [key] services response) =
      (Operation.call (.get key)).perform clientIp now cleanupNow services response := by
  unfold kvGetHandler Operation.perform
  dsimp only
  cases services.kv.get key <;> rfl

theorem kvDeleteHandler_perform (key : Bytes) :
    some (kvDeleteHandler request [key] services response) =
      (Operation.call (.delete key)).perform clientIp now cleanupNow services response := by
  have herased : (services.kv.del key).1 = (services.kv.get key).isSome := rfl
  unfold kvDeleteHandler Operation.perform
  dsimp only
  rw [herased]
  split <;> rfl

end Handlers

/-! ## The route table performs the operations -/

theorem literal_segments : (lit "about").head? ≠ some colon ∧ (lit "static").head? ≠ some colon ∧
    (lit "kv").head? ≠ some colon ∧ (lit "echo").head? ≠ some colon ∧
    (lit ":key").head? = some colon := by
  decide

theorem segments_ne : lit "about" ≠ lit "static" ∧ lit "kv" ≠ lit "static" ∧
    lit "echo" ≠ lit "static" ∧ lit "kv" ≠ lit "about" ∧ lit "echo" ≠ lit "about" ∧
    lit "echo" ≠ lit "kv" := by
  decide

theorem get_ne_put : lit "GET" ≠ lit "PUT" := by
  decide

section Dispatch

variable (request : HttpRequest) (response : HttpResponse) (clientIp : Bytes) (now cleanupNow : Time)
  (services : Services)

theorem dispatchRoutes_static (rest : List Bytes) :
    Router.dispatchRoutes request (lit "static" :: rest) clientIp now cleanupNow services response
        getRouter false =
      (onlyFor (lit "GET") request.method
        (fileOperation (urlDecode (List.intercalate [slash] rest)))).perform clientIp now cleanupNow
          services response := by
  rw [getRouter_eq]
  unfold onlyFor
  by_cases hmethod : lit "GET" = request.method
  · rw [if_pos hmethod, ← staticFileHandler_perform clientIp now cleanupNow services response request]
    simp [Router.dispatchRoutes, Router.matchSegments, Router.matchEach, hmethod, literal_segments,
      segments_ne]
  · rw [if_neg hmethod]
    simp [Router.dispatchRoutes, Router.matchSegments, Router.matchEach, hmethod, literal_segments,
      segments_ne, Operation.perform]

theorem dispatchRoutes_word {first : Bytes} (hfirst : first ≠ lit "static") :
    Router.dispatchRoutes request [first] clientIp now cleanupNow services response getRouter false =
      (pathOperation request.method request.body [first]).perform clientIp now cleanupNow services
        response := by
  rw [getRouter_eq]
  simp only [pathOperation, if_neg hfirst, onlyFor]
  by_cases habout : first = lit "about"
  · subst habout
    by_cases hmethod : lit "GET" = request.method
    · simp [Router.dispatchRoutes, Router.matchSegments, Router.matchEach, hmethod,
        literal_segments, aboutHandler, Operation.perform]
    · simp [Router.dispatchRoutes, Router.matchSegments, Router.matchEach, hmethod,
        literal_segments, segments_ne, hfirst.symm, Operation.perform]
  have habout' := Ne.symm habout
  by_cases hkv : first = lit "kv"
  · subst hkv
    by_cases hmethod : lit "GET" = request.method
    · simp [Router.dispatchRoutes, Router.matchSegments, Router.matchEach, hmethod,
        literal_segments, segments_ne, habout', hfirst.symm, kvListHandler, Operation.perform]
    · simp [Router.dispatchRoutes, Router.matchSegments, Router.matchEach, hmethod,
        literal_segments, segments_ne, habout', hfirst.symm, Operation.perform]
  have hkv' := Ne.symm hkv
  by_cases hecho : first = lit "echo"
  · subst hecho
    by_cases hmethod : lit "POST" = request.method
    · cases hasked : (services.limiter.allow now cleanupNow clientIp).1 with
      | false =>
        simp [Router.dispatchRoutes, Router.matchSegments, Router.matchEach, hmethod, hasked,
          literal_segments, habout, habout', hkv, hkv', hfirst.symm, Operation.perform]
      | true =>
        simp [Router.dispatchRoutes, Router.matchSegments, Router.matchEach, hmethod, hasked,
          literal_segments, habout, habout', hkv, hkv', hfirst.symm, echoHandler, Operation.perform]
    · simp [Router.dispatchRoutes, Router.matchSegments, Router.matchEach, hmethod,
        literal_segments, habout, habout', hkv, hkv', hfirst.symm, Operation.perform]
  · simp [Router.dispatchRoutes, Router.matchSegments, Router.matchEach, literal_segments, habout, hkv,
      hecho, habout', hkv', Ne.symm hecho, hfirst.symm, Operation.perform]

theorem dispatchRoutes_key {first : Bytes} (hfirst : first ≠ lit "static") (key : Bytes) :
    Router.dispatchRoutes request [first, key] clientIp now cleanupNow services response getRouter
        false =
      (pathOperation request.method request.body [first, key]).perform clientIp now cleanupNow services
        response := by
  rw [getRouter_eq]
  simp only [pathOperation, if_neg hfirst]
  by_cases hkv : first = lit "kv"
  · subst hkv
    rw [if_pos rfl]
    unfold keyOperation
    by_cases hput : request.method = lit "PUT"
    · simp [Router.dispatchRoutes, Router.matchSegments, Router.matchEach, hput, hfirst.symm,
        literal_segments, kvPutHandler, Operation.perform]
    have hput' := Ne.symm hput
    by_cases hget : request.method = lit "GET"
    · rw [if_neg hput, if_pos hget,
        ← kvGetHandler_perform clientIp now cleanupNow services response request]
      simp [Router.dispatchRoutes, Router.matchSegments, Router.matchEach, hget,
        get_ne_put.symm, hfirst.symm, literal_segments]
    have hget' := Ne.symm hget
    by_cases hdelete : request.method = lit "DELETE"
    · rw [if_neg hput, if_neg hget, if_pos hdelete,
        ← kvDeleteHandler_perform clientIp now cleanupNow services response request]
      rw [hdelete] at hput' hget'
      simp [Router.dispatchRoutes, Router.matchSegments, Router.matchEach, hdelete, hput', hget',
        hfirst.symm, literal_segments]
    · simp [Router.dispatchRoutes, Router.matchSegments, Router.matchEach, hput, hput', hget, hget',
        hdelete, Ne.symm hdelete, hfirst.symm, literal_segments, Operation.perform]
  · rw [if_neg hkv]
    simp [Router.dispatchRoutes, Router.matchSegments, Router.matchEach, Ne.symm hkv, hfirst.symm,
      literal_segments, Operation.perform]

end Dispatch

/-- The route table performs the operation of the request. -/
theorem dispatch_eq_perform {request : HttpRequest} (hpath : request.path.head? = some slash)
    (response : HttpResponse) (clientIp : Bytes) (now cleanupNow : Time) (services : Services) :
    Router.dispatch getRouter request response clientIp now cleanupNow services =
      (operationOf request).perform clientIp now cleanupNow services response := by
  unfold Router.dispatch operationOf
  rw [Router.splitSegments_eq hpath]
  rcases components request.path with _ | ⟨first, rest⟩
  · rw [getRouter_eq]
    unfold pathOperation onlyFor
    by_cases hmethod : lit "GET" = request.method
    · simp [Router.dispatchRoutes, Router.matchSegments, Router.matchEach, hmethod, homeHandler,
        Operation.perform]
    · simp [Router.dispatchRoutes, Router.matchSegments, Router.matchEach, hmethod, Operation.perform]
  · by_cases hfirst : first = lit "static"
    · subst hfirst
      unfold pathOperation
      dsimp only
      rw [dispatchRoutes_static, if_pos rfl]
    rcases rest with _ | ⟨key, _ | ⟨other, rest⟩⟩
    · exact dispatchRoutes_word request response clientIp now cleanupNow services hfirst
    · exact dispatchRoutes_key request response clientIp now cleanupNow services hfirst key
    · rw [getRouter_eq]
      simp [Router.dispatchRoutes, Router.matchSegments, Router.matchEach, pathOperation, hfirst,
        Ne.symm hfirst, literal_segments, Operation.perform]

end WebServer
