import WebServer.Foundation.WhileLoop
import WebServer.Http.Request
import WebServer.Http.Response
import WebServer.Service.KVStore
import WebServer.Service.RateLimiter

/-!
# The route table

A route is a method, a compiled pattern and a handler. `Router.dispatch` runs the handler of the
first route whose pattern and method match, after asking the rate limiter where the route asks for
it, and answers 405 when only the method does not match.
-/

namespace WebServer

open Bytes Search

/-- The first existing of the two directories the server takes static files from. -/
inductive StaticRoot where
  | static
  | parentStatic

/-- The process-wide state the handlers use: the singletons and the cached static root. -/
structure Services where
  kv : KVStore
  limiter : RateLimiter
  staticRoot : StaticRoot

abbrev Handler := HttpRequest → List Bytes → Services → HttpResponse → HttpResponse × Services

structure Route where
  method : Bytes
  segments : List Bytes
  isPrefix : Bool
  rateLimited : Bool
  handler : Handler

namespace Router

/-- The loop that cuts a path at its slashes; its state is `pos` and the segments so far. -/
def splitLoop (path : Bytes) : WhileLoop (ℕ × List Bytes) (List Bytes) where
  body state :=
    if state.1 < path.length then
      if path[state.1]? ≠ some slash then .next (state.1 + 1, state.2)
      else
        let last := (findFrom [slash] path (state.1 + 1)).getD path.length
        if state.1 + 1 < last then
          .next (last, state.2 ++ [substr path (state.1 + 1) (last - state.1 - 1)])
        else .next (last, state.2)
    else .exit state.2
  measure state := path.length - state.1
  decreases state state' h := by
    split at h
    · rename_i hpos
      have hlast : state.1 < (findFrom [slash] path (state.1 + 1)).getD path.length := by
        cases hfind : findFrom [slash] path (state.1 + 1) with
        | none => exact hpos
        | some i => exact le_of_findFrom hfind
      split at h
      · obtain rfl := Turn.next.inj h
        dsimp only
        omega
      · dsimp only at h
        split at h <;> obtain rfl := Turn.next.inj h <;> dsimp only <;> omega
    · exact absurd h (by simp)

def splitSegments (path : Bytes) : List Bytes := (splitLoop path).run (0, [])

/-- Append the route of `pattern`; a pattern that ends in "/*" matches by prefix. -/
def add (routes : List Route) (method pattern : Bytes) (handler : Handler)
    (rateLimited : Bool) : List Route :=
  let isPrefix := 2 < pattern.length ∧ substr pattern (pattern.length - 2) 2 = lit "/*"
  let p := if isPrefix then substr pattern 0 (pattern.length - 2) else pattern
  routes ++ [⟨method, splitSegments p, isPrefix, rateLimited, handler⟩]

/-- Compare route segments with path segments one by one, collecting the captured ones. -/
def matchEach : List Bytes → List Bytes → Option (List Bytes)
  | [], _ => some []
  | _ :: _, [] => none
  | segment :: segments, pathSeg :: pathSegs =>
    if segment.head? = some colon then (matchEach segments pathSegs).map (pathSeg :: ·)
    else if segment ≠ pathSeg then none
    else matchEach segments pathSegs

/-- The parameters of a path that matches the pattern of a route. -/
def matchSegments (route : Route) (pathSegs : List Bytes) : Option (List Bytes) :=
  if route.isPrefix then
    if pathSegs.length < route.segments.length then none
    else
      let rest := List.intercalate [slash] (pathSegs.drop route.segments.length)
      (matchEach route.segments pathSegs).map (· ++ [rest])
  else if pathSegs.length ≠ route.segments.length then none
  else matchEach route.segments pathSegs

/-- The loop of `dispatch` over the routes that are left; `pathMatched` records a route that
matched the path but not the method. -/
def dispatchRoutes (request : HttpRequest) (pathSegs : List Bytes) (clientIp : Bytes)
    (now cleanupNow : Time) (services : Services) (response : HttpResponse) :
    List Route → Bool → Option (HttpResponse × Services)
  | [], pathMatched =>
    if pathMatched then
      some ((response.setStatus 405).setBody
        (lit "405 Method Not Allowed: The requested method is not supported."), services)
    else none
  | route :: routes, pathMatched =>
    match matchSegments route pathSegs with
    | none =>
      dispatchRoutes request pathSegs clientIp now cleanupNow services response routes pathMatched
    | some params =>
      if route.method ≠ request.method then
        dispatchRoutes request pathSegs clientIp now cleanupNow services response routes true
      else if route.rateLimited then
        let (admitted, limiter) := services.limiter.allow now cleanupNow clientIp
        let services := { services with limiter := limiter }
        if admitted then some (route.handler request params services response)
        else
          some ((response.setStatus 429).setBody
            (lit "429 Too Many Requests: rate limit exceeded."), services)
      else some (route.handler request params services response)

/-- What a dispatch comes to: a refusal by the router itself, or the work of a registered handler. -/
theorem dispatchRoutes_cases {request : HttpRequest} {pathSegs : List Bytes} {clientIp : Bytes}
    {now cleanupNow : Time} {services : Services} {response : HttpResponse} {routes : List Route}
    {pathMatched : Bool} {result : HttpResponse × Services}
    (h : dispatchRoutes request pathSegs clientIp now cleanupNow services response routes
      pathMatched = some result) :
    (∃ code text, (code = 405 ∨ code = 429) ∧ result.1 = (response.setStatus code).setBody text) ∨
      ∃ route ∈ routes, ∃ params limiter,
        result = route.handler request params { services with limiter := limiter } response := by
  induction routes generalizing pathMatched with
  | nil =>
    unfold dispatchRoutes at h
    split at h
    · exact .inl ⟨405, _, .inl rfl, (congrArg Prod.fst (Option.some.inj h)).symm⟩
    · exact absurd h (by simp)
  | cons route routes ih =>
    have hrest {pathMatched : Bool} (h : dispatchRoutes request pathSegs clientIp now cleanupNow
        services response routes pathMatched = some result) :
        (∃ code text, (code = 405 ∨ code = 429) ∧
          result.1 = (response.setStatus code).setBody text) ∨
        ∃ other ∈ route :: routes, ∃ params limiter,
          result = other.handler request params { services with limiter := limiter } response := by
      rcases ih h with hrouter | ⟨other, hmem, hhandler⟩
      · exact .inl hrouter
      · exact .inr ⟨other, List.mem_cons_of_mem _ hmem, hhandler⟩
    unfold dispatchRoutes at h
    split at h
    · exact hrest h
    · rename_i params hparams
      split at h
      · exact hrest h
      · split at h
        · dsimp only at h
          split at h
          · exact .inr ⟨route, List.mem_cons_self, params, _, (Option.some.inj h).symm⟩
          · exact .inl ⟨429, _, .inr rfl, (congrArg Prod.fst (Option.some.inj h)).symm⟩
        · exact .inr ⟨route, List.mem_cons_self, params, services.limiter,
            (Option.some.inj h).symm⟩

/-- `none` is the result `false`: no route matches the path and nothing has been changed. -/
def dispatch (routes : List Route) (request : HttpRequest) (response : HttpResponse)
    (clientIp : Bytes) (now cleanupNow : Time) (services : Services) :
    Option (HttpResponse × Services) :=
  dispatchRoutes request (splitSegments request.path) clientIp now cleanupNow services response
    routes false

end Router

end WebServer
