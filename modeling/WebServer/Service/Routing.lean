import WebServer.Service.Handlers

/-!
# Which route a request takes

The segments of a path are its components between slashes, without the empty ones. A route is chosen
by a search through the table in the order of registration: `select` says which route it is, or why
there is none, and `answer` what the request gets for it. Neither mentions the loops of the router.

The second part is about patterns. A pattern that ends in "/*" stands for every extension of what is
in front of it; the pattern "/*" itself is too short for the test in `add`, and stands for one path.
-/

namespace WebServer

open Bytes Search

/-- The components of a path between slashes that are not empty. -/
def components (path : Bytes) : List Bytes := (path.splitOn slash).filter (· ≠ [])

theorem components_append_slash {first : Bytes} (h : slash ∉ first) (rest : Bytes) :
    components (first ++ slash :: rest) = components first ++ components rest := by
  rw [components, List.splitOn_append_cons_self_of_not_mem h, components,
    List.splitOn_eq_singleton h, components, ← List.filter_append]
  rfl

@[simp]
theorem components_slash (rest : Bytes) : components (slash :: rest) = components rest := by
  have h := components_append_slash (show slash ∉ ([] : Bytes) from List.not_mem_nil) rest
  rwa [List.nil_append] at h

theorem components_of_notMem {text : Bytes} (h : slash ∉ text) :
    components text = if text = [] then [] else [text] := by
  rw [components, List.splitOn_eq_singleton h]
  by_cases hempty : text = [] <;> simp [hempty]

/-- Segments that have been joined by slashes are the components of the result. -/
theorem components_intercalate {segments : List Bytes}
    (h : ∀ segment ∈ segments, segment ≠ [] ∧ slash ∉ segment) :
    components (List.intercalate [slash] segments) = segments := by
  by_cases hnil : segments = []
  · subst hnil
    rfl
  · rw [components, List.splitOn_intercalate slash (fun segment hmem ↦ (h segment hmem).2) hnil,
      List.filter_eq_self]
    intro segment hmem
    simpa using (h segment hmem).1

namespace Router

/-! ## Cutting a path -/

/-- Behind a slash, the search stops where the first component ends. -/
theorem findFrom_slash_getD (before : Bytes) {word behind : Bytes} (hword : slash ∉ word)
    (hbehind : behind = [] ∨ behind.head? = some slash) :
    (findFrom [slash] (before ++ slash :: (word ++ behind)) (before.length + 1)).getD
      (before ++ slash :: (word ++ behind)).length = (before ++ slash :: word).length := by
  have hfrom : findFrom [slash] ((before ++ [slash]) ++ (word ++ behind)) (before ++ [slash]).length =
      (find [slash] (word ++ behind)).map (· + (before ++ [slash]).length) := findFrom_append_right
  have hpath : (before ++ [slash]) ++ (word ++ behind) = before ++ slash :: (word ++ behind) := by
    simp
  have hlength : (before ++ [slash]).length = before.length + 1 := by simp
  rw [hpath, hlength] at hfrom
  rw [hfrom]
  rcases hbehind with rfl | hhead
  · rw [List.append_nil, find_singleton_eq_none_iff.mpr hword, Option.map_none, Option.getD_none]
  · obtain ⟨rest, rfl⟩ := List.head?_eq_some_iff.mp hhead
    have hfind : find [slash] (word ++ slash :: rest) = some word.length :=
      find_append_of_head_notMem hword
    rw [hfind, Option.map_some, Option.getD_some, List.length_append, List.length_cons]
    omega

/-- One turn of the loop, from a slash on: it appends the first component behind the slash. -/
theorem splitLoop_turn (before : Bytes) {word behind : Bytes} (segments : List Bytes)
    (hword : slash ∉ word) (hbehind : behind = [] ∨ behind.head? = some slash) :
    (splitLoop (before ++ slash :: (word ++ behind))).body (before.length, segments) =
      .next ((before ++ slash :: word).length, segments ++ components word) := by
  have hget : (before ++ slash :: (word ++ behind))[before.length]? = some slash := by simp
  have hpos : before.length < (before ++ slash :: (word ++ behind)).length := by simp
  have hlength : (before ++ slash :: word).length = before.length + (word.length + 1) := by simp
  have hsegment : substr (before ++ slash :: (word ++ behind)) (before.length + 1) word.length =
      word := by simp [substr, ← List.drop_drop]
  simp only [splitLoop, hget, findFrom_slash_getD before hword hbehind]
  rw [if_pos hpos, if_neg (by simp), components_of_notMem hword]
  by_cases hempty : word = []
  · -- two slashes in a row, or one at the end of the path
    subst hempty
    rw [if_neg (by simp), if_pos rfl, List.append_nil]
  · have hlast := List.length_pos_iff.mpr hempty
    have hcount : (before ++ slash :: word).length - before.length - 1 = word.length := by omega
    rw [if_pos (by omega), if_neg hempty, hcount, hsegment]

/-- From a slash on, the loop appends the components behind it. -/
theorem splitLoop_run (before rest : Bytes) (segments : List Bytes) :
    (splitLoop (before ++ slash :: rest)).run (before.length, segments) =
      segments ++ components rest := by
  induction hlen : rest.length using Nat.strong_induction_on generalizing before rest segments with
  | _ n ih =>
    by_cases hmem : slash ∈ rest
    · obtain ⟨word, behind, rfl, hword⟩ := List.eq_append_cons_of_mem hmem
      have hhead : (slash :: behind).head? = some slash := rfl
      have hnext := splitLoop_turn before segments hword (.inr hhead)
      have hassoc : before ++ slash :: (word ++ slash :: behind) =
          (before ++ slash :: word) ++ slash :: behind := by simp
      have hshorter : behind.length < n := by
        rw [← hlen]
        simp
        omega
      rw [WhileLoop.run_of_next _ hnext, components_append_slash hword, ← List.append_assoc, hassoc]
      exact ih behind.length hshorter _ behind _ rfl
    · have hnext := splitLoop_turn before segments hmem (.inl rfl)
      rw [List.append_nil] at hnext
      rw [WhileLoop.run_of_next _ hnext]
      refine WhileLoop.run_of_exit _ ?_
      simp only [splitLoop]
      rw [if_neg (Nat.lt_irrefl _)]

/-- A path that starts with a slash is cut into its components. -/
theorem splitSegments_slash (rest : Bytes) :
    splitSegments (slash :: rest) = components (slash :: rest) := by
  rw [components_slash]
  exact splitLoop_run [] rest []

theorem splitSegments_eq {path : Bytes} (h : path.head? = some slash) :
    splitSegments path = components path := by
  obtain ⟨rest, rfl⟩ := List.head?_eq_some_iff.mp h
  exact splitSegments_slash rest

end Router

/-! ## Matching -/

/-- A segment of a pattern agrees with a segment of a path: it is the same, or it captures it. -/
def Accepts (segment pathSeg : Bytes) : Prop := segment.head? = some colon ∨ segment = pathSeg

instance (segment pathSeg : Bytes) : Decidable (Accepts segment pathSeg) :=
  inferInstanceAs (Decidable (_ ∨ _))

/-- The path segments at the positions of the capturing segments. -/
def captured (segments pathSegs : List Bytes) : List Bytes :=
  ((segments.zip pathSegs).filter fun pair ↦ pair.1.head? = some colon).map Prod.snd

/-- The path has a segment at every position of the pattern, and they agree. -/
def Covers (pathSegs segments : List Bytes) : Prop :=
  segments.length ≤ pathSegs.length ∧ ∀ pair ∈ segments.zip pathSegs, Accepts pair.1 pair.2

instance (pathSegs segments : List Bytes) : Decidable (Covers pathSegs segments) :=
  inferInstanceAs (Decidable (_ ∧ _))

theorem covers_cons {pathSeg segment : Bytes} {pathSegs segments : List Bytes} :
    Covers (pathSeg :: pathSegs) (segment :: segments) ↔
      Accepts segment pathSeg ∧ Covers pathSegs segments := by
  simp only [Covers, List.zip_cons_cons, List.forall_mem_cons, List.length_cons,
    Nat.add_le_add_iff_right]
  exact and_left_comm

theorem captured_cons (segment pathSeg : Bytes) (segments pathSegs : List Bytes) :
    captured (segment :: segments) (pathSeg :: pathSegs) =
      if segment.head? = some colon then pathSeg :: captured segments pathSegs
      else captured segments pathSegs := by
  unfold captured
  rw [List.zip_cons_cons]
  split <;> rename_i hcolon <;> simp [hcolon]

namespace Route

/-- The compiled pattern matches the segments of a path, which has no further segments, except behind
a prefix. -/
def Matches (route : Route) (pathSegs : List Bytes) : Prop :=
  Covers pathSegs route.segments ∧ (route.isPrefix ∨ pathSegs.length = route.segments.length)

instance (route : Route) (pathSegs : List Bytes) : Decidable (route.Matches pathSegs) :=
  inferInstanceAs (Decidable (_ ∧ _))

/-- What the handler of a route is given: the captured segments, and for a prefix route the rest of
the path. -/
def params (route : Route) (pathSegs : List Bytes) : List Bytes :=
  captured route.segments pathSegs ++
    if route.isPrefix then [List.intercalate [slash] (pathSegs.drop route.segments.length)] else []

end Route

namespace Router

theorem matchEach_eq (segments pathSegs : List Bytes) :
    matchEach segments pathSegs =
      if Covers pathSegs segments then some (captured segments pathSegs) else none := by
  induction segments generalizing pathSegs with
  | nil => simp [matchEach, Covers, captured]
  | cons segment segments ih =>
    cases pathSegs with
    | nil => simp [matchEach, Covers]
    | cons pathSeg pathSegs =>
      rw [matchEach, ih pathSegs, captured_cons]
      simp only [covers_cons]
      by_cases hcolon : segment.head? = some colon
      · have haccepts : Accepts segment pathSeg := .inl hcolon
        simp only [if_pos hcolon, haccepts, true_and]
        split <;> rfl
      · rw [if_neg hcolon, if_neg hcolon]
        by_cases hsame : segment = pathSeg
        · have haccepts : Accepts segment pathSeg := .inr hsame
          simp only [haccepts, true_and]
          exact if_neg (not_not.mpr hsame)
        · have hrefuses : ¬ Accepts segment pathSeg := not_or.mpr ⟨hcolon, hsame⟩
          rw [if_pos hsame, if_neg fun h ↦ hrefuses h.1]

/-- The comparison of the source is the specification of a match. -/
theorem matchSegments_eq (route : Route) (pathSegs : List Bytes) :
    matchSegments route pathSegs =
      if route.Matches pathSegs then some (route.params pathSegs) else none := by
  unfold matchSegments Route.params
  rw [matchEach_eq]
  by_cases hcovers : Covers pathSegs route.segments
  · have hlength : ¬ pathSegs.length < route.segments.length := Nat.not_lt_of_le hcovers.1
    by_cases hopen : route.isPrefix
    · rw [if_pos hopen, if_neg hlength, if_pos hcovers, if_pos ⟨hcovers, .inl hopen⟩,
        if_pos hopen]
      rfl
    · rw [if_neg hopen, if_pos hcovers]
      by_cases hsame : pathSegs.length = route.segments.length
      · rw [if_neg (not_not.mpr hsame), if_pos ⟨hcovers, .inr hsame⟩, if_neg hopen,
          List.append_nil]
      · rw [if_pos hsame, if_neg fun h : route.Matches pathSegs ↦ hsame (h.2.resolve_left hopen)]
  · rw [if_neg hcovers, if_neg fun h : route.Matches pathSegs ↦ hcovers h.1]
    simp

/-! ## The choice of a route -/

/-- What the table has for a method and the segments of a path. -/
inductive Selection where
  | route (route : Route)
  | methodNotAllowed
  | noRoute

/-- The first route, in the order of registration, that matches the path and has the method. -/
def select (routes : List Route) (method : Bytes) (pathSegs : List Bytes) : Selection :=
  match routes.find? fun route ↦ route.Matches pathSegs ∧ route.method = method with
  | some route => .route route
  | none => if ∃ route ∈ routes, route.Matches pathSegs then .methodNotAllowed else .noRoute

/-- What the request gets for the selection. Only a rate-limited route asks the limiter, and if that
refuses, the handler does not run. -/
def answer (request : HttpRequest) (response : HttpResponse) (clientIp : Bytes)
    (now cleanupNow : Time) (services : Services) (pathSegs : List Bytes) :
    Selection → Option (HttpResponse × Services)
  | .route route =>
    if route.rateLimited then
      let asked := services.limiter.allow now cleanupNow clientIp
      let services := { services with limiter := asked.2 }
      if asked.1 then some (route.handler request (route.params pathSegs) services response)
      else
        some ((response.setStatus 429).setBody
          (lit "429 Too Many Requests: rate limit exceeded."), services)
    else some (route.handler request (route.params pathSegs) services response)
  | .methodNotAllowed =>
    some ((response.setStatus 405).setBody
      (lit "405 Method Not Allowed: The requested method is not supported."), services)
  | .noRoute => none

theorem select_cons (route : Route) (routes : List Route) (method : Bytes)
    (pathSegs : List Bytes) :
    select (route :: routes) method pathSegs =
      if route.Matches pathSegs ∧ route.method = method then .route route
      else
        match select routes method pathSegs with
        | .noRoute => if route.Matches pathSegs then .methodNotAllowed else .noRoute
        | selection => selection := by
  unfold select
  rw [List.find?_cons]
  by_cases hroute : route.Matches pathSegs ∧ route.method = method
  · simp only [hroute, and_self, decide_true, if_true]
  · rw [decide_eq_false hroute, if_neg hroute]
    dsimp only
    cases routes.find? fun route ↦ route.Matches pathSegs ∧ route.method = method with
    | some other => rfl
    | none =>
      by_cases hmatches : route.Matches pathSegs
      · by_cases hother : ∃ route ∈ routes, route.Matches pathSegs
        · simp [hmatches, hother]
        · simp [hmatches, hother]
      · by_cases hother : ∃ route ∈ routes, route.Matches pathSegs
        · simp [hmatches, hother]
        · simp [hmatches, hother]

/-- The loop answers for the selection among the routes that are left; a route before them that
matches the path, but not the method, turns a failed search into 405. -/
theorem dispatchRoutes_eq (request : HttpRequest) (pathSegs : List Bytes) (clientIp : Bytes)
    (now cleanupNow : Time) (services : Services) (response : HttpResponse) (routes : List Route)
    (pathMatched : Bool) :
    dispatchRoutes request pathSegs clientIp now cleanupNow services response routes pathMatched =
      answer request response clientIp now cleanupNow services pathSegs
        (match select routes request.method pathSegs with
          | .noRoute => if pathMatched then .methodNotAllowed else .noRoute
          | selection => selection) := by
  induction routes generalizing pathMatched with
  | nil => cases pathMatched <;> rfl
  | cons route routes ih =>
    have hselect := select_cons route routes request.method pathSegs
    rw [dispatchRoutes, matchSegments_eq]
    by_cases hmatches : route.Matches pathSegs
    · rw [if_pos hmatches]
      dsimp only
      by_cases hmethod : route.method = request.method
      · rw [if_pos ⟨hmatches, hmethod⟩] at hselect
        rw [hselect, if_neg (not_not.mpr hmethod)]
        rfl
      · rw [if_neg fun h ↦ hmethod h.2, if_pos hmatches] at hselect
        rw [hselect, if_pos hmethod, ih]
        cases select routes request.method pathSegs <;> simp
    · rw [if_neg fun h ↦ hmatches h.1, if_neg hmatches] at hselect
      rw [hselect, if_neg hmatches]
      dsimp only
      rw [ih]
      cases select routes request.method pathSegs <;> rfl

/-! ## The table -/

/-- One call of `add`. -/
structure Registration where
  method : Bytes
  pattern : Bytes
  handler : Handler
  rateLimited : Bool

/-- The route that a call of `add` appends. -/
def Registration.route (registration : Registration) : Route :=
  let isPrefix := 2 < registration.pattern.length ∧
    substr registration.pattern (registration.pattern.length - 2) 2 = lit "/*"
  let p := if isPrefix then substr registration.pattern 0 (registration.pattern.length - 2)
    else registration.pattern
  ⟨registration.method, splitSegments p, isPrefix, registration.rateLimited, registration.handler⟩

def Registration.perform (routes : List Route) (registration : Registration) : List Route :=
  add routes registration.method registration.pattern registration.handler registration.rateLimited

/-- The table that a sequence of calls of `add` builds. -/
def table (registrations : List Registration) : List Route :=
  registrations.foldl Registration.perform []

/-- The table keeps the order of registration. -/
theorem table_eq (registrations : List Registration) :
    table registrations = registrations.map Registration.route := by
  have hfold (routes : List Route) : registrations.foldl Registration.perform routes =
      routes ++ registrations.map Registration.route := by
    induction registrations generalizing routes with
    | nil => simp
    | cons registration registrations ih =>
      rw [List.foldl_cons, ih, List.map_cons, List.append_cons]
      rfl
  exact hfold []

theorem select_eq_noRoute_iff {routes : List Route} {method : Bytes} {pathSegs : List Bytes} :
    select routes method pathSegs = .noRoute ↔ ∀ route ∈ routes, ¬ route.Matches pathSegs := by
  unfold select
  cases hfind : routes.find? fun route ↦ route.Matches pathSegs ∧ route.method = method with
  | some route =>
    have hmem := List.mem_of_find?_eq_some hfind
    have hmatches : route.Matches pathSegs ∧ route.method = method := by
      simpa using List.find?_some hfind
    exact iff_of_false (by simp) fun hnone ↦ hnone route hmem hmatches.1
  | none =>
    dsimp only
    split
    · rename_i hmatches
      obtain ⟨route, hmem, hmatches⟩ := hmatches
      exact iff_of_false (by simp) fun hnone ↦ hnone route hmem hmatches
    · rename_i hnone
      exact iff_of_true rfl fun route hmem hmatches ↦ hnone ⟨route, hmem, hmatches⟩

theorem select_eq_methodNotAllowed_iff {routes : List Route} {method : Bytes}
    {pathSegs : List Bytes} : select routes method pathSegs = .methodNotAllowed ↔
      (∃ route ∈ routes, route.Matches pathSegs) ∧
        ∀ route ∈ routes, route.Matches pathSegs → route.method ≠ method := by
  unfold select
  cases hfind : routes.find? fun route ↦ route.Matches pathSegs ∧ route.method = method with
  | some route =>
    have hmem := List.mem_of_find?_eq_some hfind
    have hboth : route.Matches pathSegs ∧ route.method = method := by
      simpa using List.find?_some hfind
    exact iff_of_false (by simp) fun h ↦ h.2 route hmem hboth.1 hboth.2
  | none =>
    have hnone : ∀ route ∈ routes, route.Matches pathSegs → route.method ≠ method := by
      simpa using hfind
    rw [and_iff_left hnone]
    dsimp only
    split
    · rename_i hmatches
      exact iff_of_true rfl hmatches
    · rename_i hnot
      exact iff_of_false (by simp) hnot

theorem answer_eq_none_iff {request : HttpRequest} {response : HttpResponse} {clientIp : Bytes}
    {now cleanupNow : Time} {services : Services} {pathSegs : List Bytes} {selection : Selection} :
    answer request response clientIp now cleanupNow services pathSegs selection = none ↔
      selection = .noRoute := by
  cases selection with
  | route route =>
    refine iff_of_false ?_ (by simp)
    unfold answer
    dsimp only
    split
    · split <;> simp
    · simp
  | methodNotAllowed => exact iff_of_false (by simp [answer]) (by simp)
  | noRoute => exact iff_of_true rfl rfl

/-- A request with a path that starts with a slash gets what its selection stands for. -/
theorem dispatch_eq_answer (routes : List Route) (request : HttpRequest)
    (hpath : request.path.head? = some slash) (response : HttpResponse) (clientIp : Bytes)
    (now cleanupNow : Time) (services : Services) :
    dispatch routes request response clientIp now cleanupNow services =
      answer request response clientIp now cleanupNow services (components request.path)
        (select routes request.method (components request.path)) := by
  rw [dispatch, splitSegments_eq hpath, dispatchRoutes_eq]
  cases select routes request.method (components request.path) <;> rfl

/-- For every table built by `add` and every path that starts with a slash: the request gets what its
selection by method and components of the path stands for, which is 405 just if some pattern matches
and none of these has the method, and it is left to the caller just if no pattern matches. -/
theorem dispatch_table (registrations : List Registration) (request : HttpRequest)
    (hpath : request.path.head? = some slash) (response : HttpResponse) (clientIp : Bytes)
    (now cleanupNow : Time) (services : Services) :
    let routes := registrations.map Registration.route
    let pathSegs := components request.path
    let result := dispatch (table registrations) request response clientIp now cleanupNow services
    result = answer request response clientIp now cleanupNow services pathSegs
        (select routes request.method pathSegs) ∧
      (select routes request.method pathSegs = .methodNotAllowed ↔
        (∃ route ∈ routes, route.Matches pathSegs) ∧
          ∀ route ∈ routes, route.Matches pathSegs → route.method ≠ request.method) ∧
      (result = none ↔ ∀ route ∈ routes, ¬ route.Matches pathSegs) := by
  intro routes pathSegs result
  have hresult : result = answer request response clientIp now cleanupNow services pathSegs
      (select routes request.method pathSegs) := by
    have hdispatch := dispatch_eq_answer routes request hpath response clientIp now cleanupNow
      services
    rw [← hdispatch]
    exact congrArg (dispatch · request response clientIp now cleanupNow services)
      (table_eq registrations)
  refine ⟨hresult, select_eq_methodNotAllowed_iff, ?_⟩
  rw [hresult, answer_eq_none_iff, select_eq_noRoute_iff]

/-- POST on the path of a key, written with more slashes than it needs. -/
theorem dispatch_table_post :
    let registrations : List Registration :=
      [⟨lit "GET", lit "/kv/:key", kvGetHandler, false⟩,
        ⟨lit "GET", lit "/static/*", staticFileHandler, false⟩,
        ⟨lit "PUT", lit "/kv/:key", kvPutHandler, true⟩]
    let request := { HttpRequest.clear with method := lit "POST", path := lit "//kv/a/" }
    let services : Services := ⟨⟨∅⟩, .new, .static⟩
    dispatch (table registrations) request .new [] 0 0 services =
      some ((HttpResponse.new.setStatus 405).setBody
        (lit "405 Method Not Allowed: The requested method is not supported."), services) := by
  intro registrations request services
  exact (dispatch_table registrations request rfl .new [] 0 0 services).1

end Router

/-! ## Prefix patterns -/

namespace Router

/-- The segments joined by slashes, with a slash in front and "/*" behind; "/*" if there are none. -/
def prefixPattern (segments : List Bytes) : Bytes :=
  if segments = [] then lit "/*"
  else slash :: List.intercalate [slash] segments ++ lit "/*"

/-- A route matches the paths whose components begin with segments that agree with the given ones,
and the last parameter is the rest of the components. -/
def MatchesExtensions (route : Route) (segments : List Bytes) : Prop :=
  ∀ path, path.head? = some slash →
    ((matchSegments route (splitSegments path)).isSome ↔ Covers (components path) segments) ∧
    ∀ params, matchSegments route (splitSegments path) = some params →
      params.getLast? =
        some (List.intercalate [slash] ((components path).drop segments.length))

/-- A pattern with segments in front of its "/*" is compiled to a prefix route for them. -/
theorem route_prefixPattern {segments : List Bytes} (hne : segments ≠ [])
    (hsegments : ∀ segment ∈ segments, segment ≠ [] ∧ slash ∉ segment) (method : Bytes)
    (handler : Handler) (rateLimited : Bool) :
    Registration.route ⟨method, prefixPattern segments, handler, rateLimited⟩ =
      ⟨method, segments, true, rateLimited, handler⟩ := by
  have hpattern : prefixPattern segments = slash :: List.intercalate [slash] segments ++ lit "/*" :=
    if_neg hne
  have hstar : (lit "/*").length = 2 := rfl
  have hlength : (prefixPattern segments).length - 2 =
      (slash :: List.intercalate [slash] segments).length := by
    rw [hpattern, List.length_append, hstar, Nat.add_sub_cancel]
  have hend : substr (prefixPattern segments) ((prefixPattern segments).length - 2) 2 = lit "/*" := by
    rw [hlength, hpattern, substr, List.drop_left]
    rfl
  have hfront : substr (prefixPattern segments) 0 ((prefixPattern segments).length - 2) =
      slash :: List.intercalate [slash] segments := by
    rw [hlength, hpattern, substr, List.drop_zero, List.take_left]
  have hlong : 2 < (prefixPattern segments).length := by
    rw [hpattern, List.length_append, hstar]
    simp
  have hpattern : 2 < (prefixPattern segments).length ∧
      substr (prefixPattern segments) ((prefixPattern segments).length - 2) 2 = lit "/*" :=
    ⟨hlong, hend⟩
  unfold Registration.route
  simp only [hpattern, and_self, decide_true, if_true, hfront, splitSegments_slash,
    components_slash, components_intercalate hsegments]

/-- The pattern "/*" is no prefix pattern: its route matches the path "/*" only. -/
theorem route_star (method : Bytes) (handler : Handler) (rateLimited : Bool) :
    Registration.route ⟨method, prefixPattern [], handler, rateLimited⟩ =
      ⟨method, [lit "*"], false, rateLimited, handler⟩ := by
  rfl

theorem not_matchesExtensions_star (method : Bytes) (handler : Handler) (rateLimited : Bool) :
    ¬ MatchesExtensions (Registration.route ⟨method, prefixPattern [], handler, rateLimited⟩) [] := by
  intro h
  rw [route_star] at h
  have hnone : matchSegments ⟨method, [lit "*"], false, rateLimited, handler⟩
      (splitSegments (lit "/")) = none := by
    rw [splitSegments_eq rfl]
    rfl
  have hroot := (h (lit "/") rfl).1
  rw [hnone] at hroot
  exact absurd (hroot.mpr (by simp [Covers])) (by simp)

theorem matchesExtensions_of_prefix (method : Bytes) (segments : List Bytes) (handler : Handler)
    (rateLimited : Bool) :
    MatchesExtensions ⟨method, segments, true, rateLimited, handler⟩ segments := by
  intro path hpath
  rw [splitSegments_eq hpath, matchSegments_eq]
  by_cases hcovers : Covers (components path) segments
  · rw [if_pos ⟨hcovers, .inl rfl⟩]
    refine ⟨iff_of_true rfl hcovers, fun params hparams ↦ ?_⟩
    rw [← Option.some.inj hparams]
    simp [Route.params]
  · rw [if_neg fun h ↦ hcovers h.1]
    exact ⟨iff_of_false (by simp) hcovers, by simp⟩

/-- The route that `add` appends for the pattern of a list of segments matches exactly the extensions
of the list, if and only if the list is not empty. -/
theorem add_prefixPattern_iff (segments : List Bytes)
    (hsegments : ∀ segment ∈ segments, segment ≠ [] ∧ slash ∉ segment) (routes : List Route)
    (method : Bytes) (handler : Handler) (rateLimited : Bool) :
    ∃ route, add routes method (prefixPattern segments) handler rateLimited = routes ++ [route] ∧
      (MatchesExtensions route segments ↔ segments ≠ []) := by
  refine ⟨Registration.route ⟨method, prefixPattern segments, handler, rateLimited⟩, rfl, ?_⟩
  constructor
  · rintro h rfl
    exact not_matchesExtensions_star method handler rateLimited h
  · intro hne
    rw [route_prefixPattern hne hsegments]
    exact matchesExtensions_of_prefix method segments handler rateLimited

theorem add_prefixPattern_static :
    ∃ route, add [] (lit "GET") (lit "/static/:dir/*") staticFileHandler false = [] ++ [route] ∧
      (MatchesExtensions route [lit "static", lit ":dir"] ↔ [lit "static", lit ":dir"] ≠ []) :=
  add_prefixPattern_iff [lit "static", lit ":dir"] (by decide) [] (lit "GET") staticFileHandler false

/-- A file server registered for all paths with "/*" does not get the path "/a". -/
theorem star_misses_path :
    add [] (lit "GET") (prefixPattern []) staticFileHandler false =
        [⟨lit "GET", [lit "*"], false, false, staticFileHandler⟩] ∧
      ¬ MatchesExtensions ⟨lit "GET", [lit "*"], false, false, staticFileHandler⟩ [] ∧
      matchSegments ⟨lit "GET", [lit "*"], false, false, staticFileHandler⟩
        (splitSegments (lit "/a")) = none := by
  refine ⟨rfl, not_matchesExtensions_star (lit "GET") staticFileHandler false, ?_⟩
  rw [splitSegments_eq rfl]
  rfl

end Router

end WebServer
