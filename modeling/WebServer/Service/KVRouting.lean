import WebServer.Foundation.ServedMap
import WebServer.Http.ResponseDecoder
import WebServer.Service.Handlers

/-!
# Requests on /kv/<key>

A path "/kv/" followed by a key without slashes has exactly the segments "kv" and the key, whatever else
the key contains, and among the routes only the three key routes match it. The handler behind them is
one call on the map that the store stands for.
-/

namespace WebServer

open Bytes Search

theorem getRouter_eq : getRouter =
    [⟨lit "GET", [], false, false, homeHandler⟩,
      ⟨lit "GET", [lit "about"], false, false, aboutHandler⟩,
      ⟨lit "GET", [lit "static"], true, false, staticFileHandler⟩,
      ⟨lit "PUT", [lit "kv", lit ":key"], false, false, kvPutHandler⟩,
      ⟨lit "GET", [lit "kv", lit ":key"], false, false, kvGetHandler⟩,
      ⟨lit "DELETE", [lit "kv", lit ":key"], false, false, kvDeleteHandler⟩,
      ⟨lit "GET", [lit "kv"], false, false, kvListHandler⟩,
      ⟨lit "POST", [lit "echo"], false, true, echoHandler⟩] := by
  rfl

/-! ## The segments of a key path -/

theorem splitSegments_kv {key : Bytes} (hne : key ≠ []) (hslash : slash ∉ key) :
    Router.splitSegments (lit "/kv/" ++ key) = [lit "kv", key] := by
  have hpath : lit "/kv/" ++ key = [47, 107, 118, 47] ++ key := rfl
  have hlength : (lit "/kv/" ++ key).length = key.length + 4 := by
    rw [hpath, List.length_append, Nat.add_comm]
    rfl
  have hpos := List.length_pos_iff.mpr hne
  have hfirst : (Router.splitLoop (lit "/kv/" ++ key)).body (0, []) = .next (3, [lit "kv"]) := by
    have hfind : findFrom [slash] (lit "/kv/" ++ key) 1 = some 3 := by
      have hdrop : (lit "/kv/" ++ key).drop 1 = [107, 118] ++ ([47] ++ key) := rfl
      have hle : 1 ≤ (lit "/kv/" ++ key).length := by omega
      rw [findFrom, if_pos hle, hdrop, slash, find_append_of_head_notMem (by decide)]
      rfl
    have hget : (lit "/kv/" ++ key)[0]? = some slash := rfl
    have hsegment : substr (lit "/kv/" ++ key) 1 2 = lit "kv" := rfl
    simp only [Router.splitLoop, hget, hfind, hlength, Option.getD_some, Nat.zero_add]
    rw [if_pos (by omega), if_neg (by simp), if_pos (by omega), hsegment]
    rfl
  have hsecond : (Router.splitLoop (lit "/kv/" ++ key)).body (3, [lit "kv"]) =
      .next (key.length + 4, [lit "kv", key]) := by
    have hfind : findFrom [slash] (lit "/kv/" ++ key) 4 = none := by
      have hdrop : (lit "/kv/" ++ key).drop 4 = key := rfl
      have hle : 4 ≤ (lit "/kv/" ++ key).length := by omega
      rw [findFrom, if_pos hle, hdrop, find_singleton_eq_none_iff.mpr hslash]
      rfl
    have hget : (lit "/kv/" ++ key)[3]? = some slash := rfl
    have hsegment : substr (lit "/kv/" ++ key) 4 (key.length + 4 - 3 - 1) = key := by
      have hdrop : (lit "/kv/" ++ key).drop 4 = key := rfl
      rw [substr, hdrop, List.take_of_length_le (by omega)]
    simp only [Router.splitLoop, hget, hfind, hlength, Option.getD_none]
    rw [if_pos (by omega), if_neg (by simp), if_pos (by omega), hsegment]
    rfl
  have hexit : (Router.splitLoop (lit "/kv/" ++ key)).body (key.length + 4, [lit "kv", key]) =
      .exit [lit "kv", key] := by
    simp only [Router.splitLoop, hlength]
    rw [if_neg (by omega)]
  unfold Router.splitSegments
  rw [WhileLoop.run_of_next _ hfirst, WhileLoop.run_of_next _ hsecond, WhileLoop.run_of_exit _ hexit]

/-! ## The map behind the handlers -/

/-- The method and the key path of a request on the store. -/
structure IsKVRequest (request : HttpRequest) : Prop where
  method : request.method = lit "PUT" ∨ request.method = lit "GET" ∨ request.method = lit "DELETE"
  path : ∃ key, key ≠ [] ∧ slash ∉ key ∧ request.path = lit "/kv/" ++ key

/-- The call on the map a request on the store asks for. -/
def callOf (request : HttpRequest) : MapCall Bytes Bytes :=
  let key := request.path.drop 4
  if request.method = lit "PUT" then .put key request.body
  else if request.method = lit "GET" then .get key
  else .delete key

/-- Status and body that stand for a reply of the map. -/
def replyMessage : MapReply Bytes → Message
  | .stored => ⟨200, lit "ok"⟩
  | .found value => ⟨200, value⟩
  | .deleted => ⟨200, lit "deleted"⟩
  | .missing => ⟨404, lit "not found"⟩

theorem KVStore.get_put (store : KVStore) (key value : Bytes) :
    (store.put key value).get = Function.update store.get key (some value) := by
  funext other
  by_cases hkey : other = key
  · subst hkey
    simp [get, put]
  · simp [get, put, hkey]

theorem KVStore.get_del (store : KVStore) (key : Bytes) :
    (store.del key).2.get = Function.update store.get key none := by
  funext other
  by_cases hkey : other = key
  · subst hkey
    simp [get, del]
  · simp [get, del, hkey]

/-- A handler does one call on the map and reports its reply. -/
structure Performs (call : MapCall Bytes Bytes) (services : Services) (response : HttpResponse)
    (result : HttpResponse × Services) : Prop where
  reply : (⟨result.1.statusCode, result.1.body⟩ : Message) =
    replyMessage (call.reply services.kv.get)
  hasFile : result.1.hasFile = response.hasFile
  store : result.2.kv.get = call.apply services.kv.get

section Handlers

variable {services : Services} {response : HttpResponse} (hstatus : response.statusCode = 200)
include hstatus

theorem message_setBody (body : Bytes) :
    (⟨(response.setBody body).statusCode, (response.setBody body).body⟩ : Message) =
      ⟨200, body⟩ := by
  rw [← hstatus]
  rfl

omit hstatus in
theorem message_notFound (response : HttpResponse) :
    (⟨(notFound response).statusCode, (notFound response).body⟩ : Message) =
      ⟨404, lit "not found"⟩ := rfl

theorem performs_kvPutHandler (request : HttpRequest) (key : Bytes) (params : List Bytes) :
    Performs (.put key request.body) services response
      (kvPutHandler request (key :: params) services response) :=
  ⟨message_setBody hstatus (lit "ok"), rfl, KVStore.get_put services.kv key request.body⟩

theorem performs_kvGetHandler (request : HttpRequest) (key : Bytes) (params : List Bytes) :
    Performs (.get key) services response
      (kvGetHandler request (key :: params) services response) := by
  unfold kvGetHandler
  dsimp only
  cases hget : services.kv.get key with
  | some value =>
    have hreply : MapCall.reply services.kv.get (.get key) = .found value := by
      simp [MapCall.reply, hget]
    exact ⟨hreply ▸ message_setBody hstatus value, rfl, rfl⟩
  | none =>
    have hreply : MapCall.reply services.kv.get (.get key) = .missing := by
      simp [MapCall.reply, hget]
    exact ⟨hreply ▸ message_notFound response, rfl, rfl⟩

theorem performs_kvDeleteHandler (request : HttpRequest) (key : Bytes) (params : List Bytes) :
    Performs (.delete key) services response
      (kvDeleteHandler request (key :: params) services response) := by
  have herased : (services.kv.del key).1 = (services.kv.get key).isSome := rfl
  have hreply : MapCall.reply services.kv.get (.delete key) =
      if (services.kv.get key).isSome then .deleted else .missing := rfl
  unfold kvDeleteHandler
  dsimp only
  rw [herased]
  split
  · rename_i hsome
    rw [if_pos hsome] at hreply
    exact ⟨hreply ▸ message_setBody hstatus (lit "deleted"), rfl, KVStore.get_del services.kv key⟩
  · rename_i hnone
    rw [if_neg hnone] at hreply
    exact ⟨hreply ▸ message_notFound response, rfl, KVStore.get_del services.kv key⟩

/-- A request on the store is dispatched to the handler of its method. -/
theorem dispatch_kv {request : HttpRequest} (h : IsKVRequest request) (clientIp : Bytes)
    (now cleanupNow : Time) :
    ∃ result, Router.dispatch getRouter request response clientIp now cleanupNow services =
        some result ∧ Performs (callOf request) services response result := by
  obtain ⟨key, hne, hslash, hpath⟩ := h.path
  have hkey : request.path.drop 4 = key := by
    rw [hpath]
    rfl
  have hsegments : Router.splitSegments request.path = [lit "kv", key] := by
    rw [hpath]
    exact splitSegments_kv hne hslash
  have hkv : lit "static" ≠ lit "kv" := by decide
  have hcolon : (lit ":key").head? = some colon := rfl
  have hname : (lit "kv").head? ≠ some colon := by decide
  have hstatic : (lit "static").head? ≠ some colon := by decide
  have hput : lit "GET" ≠ lit "PUT" := by decide
  have hdelete : lit "GET" ≠ lit "DELETE" := by decide
  have hother : lit "PUT" ≠ lit "DELETE" := by decide
  unfold Router.dispatch callOf
  rw [hsegments, getRouter_eq, hkey]
  rcases h.method with hmethod | hmethod | hmethod
  · rw [if_pos hmethod]
    refine ⟨_, ?_, performs_kvPutHandler hstatus request key []⟩
    simp [Router.dispatchRoutes, Router.matchSegments, Router.matchEach, hkv, hcolon, hname,
      hstatic, hmethod]
  · rw [hmethod, if_neg hput, if_pos rfl]
    refine ⟨_, ?_, performs_kvGetHandler hstatus request key []⟩
    simp [Router.dispatchRoutes, Router.matchSegments, Router.matchEach, hkv, hcolon, hname,
      hstatic, hmethod, hput.symm]
  · rw [hmethod, if_neg hother.symm, if_neg hdelete.symm]
    refine ⟨_, ?_, performs_kvDeleteHandler hstatus request key []⟩
    simp [Router.dispatchRoutes, Router.matchSegments, Router.matchEach, hkv, hcolon, hname,
      hstatic, hmethod, hother, hdelete]

end Handlers

end WebServer
