import WebServer.Service.Router

/-!
# The route handlers

The handlers registered by `getRouter`, and the helpers of the static file service: percent decoding,
the guard against ".." segments, the media type of a path and the directory files are served from.
-/

namespace WebServer

open Bytes Search

/-! ## Static files -/

/-- The value of a hexadecimal digit; `none` stands for -1. -/
def hexVal (c : Byte) : Option ℕ :=
  if 48 ≤ c ∧ c ≤ 57 then some (c.toNat - 48)
  else if 97 ≤ c ∧ c ≤ 102 then some (c.toNat - 97 + 10)
  else if 65 ≤ c ∧ c ≤ 70 then some (c.toNat - 65 + 10)
  else none

/-- Decode the percent escapes that have two hexadecimal digits behind them; keep other bytes. -/
def urlDecode : Bytes → Bytes
  | [] => []
  | [c] => [c]
  | [c, d] => [c, d]
  | c :: d :: e :: rest =>
    if c = 37 then
      match hexVal d, hexVal e with
      | some hi, some lo => UInt8.ofNat (16 * hi + lo) :: urlDecode rest
      | _, _ => c :: urlDecode (d :: e :: rest)
    else c :: urlDecode (d :: e :: rest)

/-- The media types by extension, in the order of the comparisons in `mimeType`. -/
def mimeTable : List (Bytes × Bytes) :=
  [(lit "html", lit "text/html; charset=utf-8"), (lit "htm", lit "text/html; charset=utf-8"),
    (lit "css", lit "text/css; charset=utf-8"),
    (lit "js", lit "application/javascript; charset=utf-8"),
    (lit "txt", lit "text/plain; charset=utf-8"), (lit "md", lit "text/plain; charset=utf-8"),
    (lit "json", lit "application/json; charset=utf-8"), (lit "png", lit "image/png"),
    (lit "jpg", lit "image/jpeg"), (lit "jpeg", lit "image/jpeg"), (lit "gif", lit "image/gif"),
    (lit "svg", lit "image/svg+xml"), (lit "ico", lit "image/x-icon"),
    (lit "webp", lit "image/webp"), (lit "pdf", lit "application/pdf"),
    (lit "wasm", lit "application/wasm")]

def mimeType (path : Bytes) : Bytes :=
  if dot ∈ path then
    let ext := (path.reverse.takeWhile (· ≠ dot)).reverse.map toLower
    (mimeTable.lookup ext).getD (lit "application/octet-stream")
  else lit "application/octet-stream"

namespace StaticRoot

/-- The choice made on first use; `isDir` is the answer of `stat` for the two candidates. -/
def detect (isDir : Bytes → Bool) : StaticRoot :=
  if isDir (lit "static") then .static
  else if isDir (lit "../static") then .parentStatic
  else .static

def path : StaticRoot → Bytes
  | .static => lit "static"
  | .parentStatic => lit "../static"

end StaticRoot

/-- The loop that looks for a ".." segment from `pos` on. -/
def dotDotLoop (rel : Bytes) : WhileLoop ℕ Bool where
  body pos :=
    if pos ≤ rel.length then
      let last := (findFrom [slash] rel pos).getD rel.length
      if substr rel pos (last - pos) = lit ".." then .exit true
      else if rel.length < last + 1 then .exit false
      else .next (last + 1)
    else .exit false
  measure pos := rel.length + 1 - pos
  decreases pos pos' h := by
    split at h
    · rename_i hpos
      have hlast : pos ≤ (findFrom [slash] rel pos).getD rel.length := by
        cases hfind : findFrom [slash] rel pos with
        | none => exact hpos
        | some i => exact le_of_findFrom hfind
      dsimp only at h
      split at h
      · exact absurd h (by simp)
      · split at h
        · exact absurd h (by simp)
        · obtain rfl := Turn.next.inj h
          omega
    · exact absurd h (by simp)

/-! ## Handlers -/

def homeHandler : Handler := fun _ _ services response ↦
  (response.setBody (lit "Hello, World! This is the home page."), services)

def aboutHandler : Handler := fun _ _ services response ↦
  (response.setBody (lit "About Us: This is a simple HTTP server."), services)

def echoHandler : Handler := fun request _ services response ↦
  (response.setBody (lit "Received POST data: " ++ request.body), services)

def forbidden (response : HttpResponse) : HttpResponse :=
  (response.setStatus 403).setBody (lit "403 Forbidden")

def staticFileHandler : Handler := fun _ params services response ↦
  match params with
  | [] => ((response.setStatus 404).setBody (lit "404 Not Found"), services)
  | param :: _ =>
    let rel := urlDecode param
    if rel = [] ∨ rel.head? = some slash then (forbidden response, services)
    else if (dotDotLoop rel).run 0 then (forbidden response, services)
    else (response.setFile (services.staticRoot.path ++ lit "/" ++ rel), services)

def notFound (response : HttpResponse) : HttpResponse :=
  (response.setStatus 404).setBody (lit "not found")

def kvPutHandler : Handler := fun request params services response ↦
  match params with
  | [] => (notFound response, services)
  | key :: _ =>
    (response.setBody (lit "ok"), { services with kv := services.kv.put key request.body })

def kvGetHandler : Handler := fun _ params services response ↦
  match params with
  | [] => (notFound response, services)
  | key :: _ =>
    match services.kv.get key with
    | some value => (response.setBody value, services)
    | none => (notFound response, services)

def kvDeleteHandler : Handler := fun _ params services response ↦
  match params with
  | [] => (notFound response, services)
  | key :: _ =>
    let (erased, kv) := services.kv.del key
    let services := { services with kv := kv }
    if erased then (response.setBody (lit "deleted"), services)
    else (notFound response, services)

def kvListHandler : Handler := fun _ _ services response ↦
  (response.setBody services.kv.dump, services)

def getRouter : List Route :=
  let r : List Route := []
  let r := Router.add r (lit "GET") (lit "/") homeHandler false
  let r := Router.add r (lit "GET") (lit "/about") aboutHandler false
  let r := Router.add r (lit "GET") (lit "/static/*") staticFileHandler false
  let r := Router.add r (lit "PUT") (lit "/kv/:key") kvPutHandler false
  let r := Router.add r (lit "GET") (lit "/kv/:key") kvGetHandler false
  let r := Router.add r (lit "DELETE") (lit "/kv/:key") kvDeleteHandler false
  let r := Router.add r (lit "GET") (lit "/kv") kvListHandler false
  Router.add r (lit "POST") (lit "/echo") echoHandler true

/-- What holds of every handler holds of the handlers of the router. -/
theorem forall_mem_getRouter {property : Handler → Prop} (hhome : property homeHandler)
    (habout : property aboutHandler) (hstatic : property staticFileHandler)
    (hput : property kvPutHandler) (hget : property kvGetHandler)
    (hdelete : property kvDeleteHandler) (hlist : property kvListHandler)
    (hecho : property echoHandler) : ∀ route ∈ getRouter, property route.handler := by
  have hadd {routes : List Route} {handler : Handler}
      (hroutes : ∀ route ∈ routes, property route.handler) (hhandler : property handler)
      (method pattern : Bytes) (rateLimited : Bool) :
      ∀ route ∈ Router.add routes method pattern handler rateLimited, property route.handler := by
    intro route hmem
    rcases List.mem_append.mp hmem with hold | hnew
    · exact hroutes route hold
    · obtain rfl := List.mem_singleton.mp hnew
      exact hhandler
  unfold getRouter
  refine hadd ?_ hecho _ _ _
  refine hadd ?_ hlist _ _ _
  refine hadd ?_ hdelete _ _ _
  refine hadd ?_ hget _ _ _
  refine hadd ?_ hput _ _ _
  refine hadd ?_ hstatic _ _ _
  refine hadd ?_ habout _ _ _
  exact hadd (by simp) hhome _ _ _

end WebServer
