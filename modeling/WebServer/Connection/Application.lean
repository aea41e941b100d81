import WebServer.Connection.Cluster
import WebServer.Connection.ResponseStream
import WebServer.Foundation.SequentialObject
import WebServer.Service.Interface
import WebServer.Service.RateLimiting

/-!
# The server as one sequential object

What all connections share is a map from keys to values and, for each client address, a token bucket.
The object answers the verdicts of the parser one after the other. It leaves open the order in which the
store is listed, and it knows nothing of the entries the limiter keeps and drops: a denied request
changes nothing, and every address has a bucket from the beginning. The services refine this object.
-/

namespace WebServer

open Bytes OutSegment

structure Application where
  values : Bytes → Option Bytes
  buckets : Bytes → TokenBucket ℚ

/-- What the parser found in the input of a client, and what its answer meets outside. -/
structure Arrival where
  verdict : Except ℕ HttpRequest
  clientIp : Bytes
  now : Time
  openFile : Bytes → Option OpenedFile

def Arrival.operation (arrival : Arrival) : Except ℕ Operation := arrival.verdict.map operationOf

namespace Application

/-- A second brings 500 tokens. -/
def tokenClock (now : Time) : ℚ := (now : ℚ) / 1000000000 * 500

/-- The bucket of an address has a token, and what it holds behind it. -/
def payment (app : Application) (clientIp : Bytes) (now : Time) : Bool × TokenBucket ℚ :=
  (app.buckets clientIp).take 1000 1 (tokenClock now)

def pay (app : Application) (clientIp : Bytes) (now : Time) : Application where
  values := app.values
  buckets := Function.update app.buckets clientIp (app.payment clientIp now).2

/-- The entries are those of the map, in some order. -/
structure Lists (values : Bytes → Option Bytes) (entries : List (Bytes × Bytes)) : Prop where
  nodup : (entries.map Prod.fst).Nodup
  mem_iff : ∀ key value, (key, value) ∈ entries ↔ values key = some value

def listing (entries : List (Bytes × Bytes)) : Bytes :=
  entries.flatMap fun entry ↦ entry.1 ++ lit "=" ++ entry.2 ++ lit "\n"

/-- Only a regular file is sent. -/
def fileReply (openFile : Bytes → Option OpenedFile) (path : Bytes) : Message :=
  match openFile (cString path) with
  | none => ⟨404, lit "404 Not Found: The requested file does not exist."⟩
  | some opened =>
    match opened.stat with
    | some ⟨true, size⟩ => ⟨200, fileBytes opened.content 0 size⟩
    | _ => ⟨404, lit "404 Not Found"⟩

inductive Answers (root : Bytes) (app : Application) (arrival : Arrival) :
    Message → Application → Prop
  | page {text : Bytes} (h : arrival.operation = .ok (.page text)) :
      Answers root app arrival ⟨200, text⟩ app
  | file {rel : Bytes} (h : arrival.operation = .ok (.file rel)) :
      Answers root app arrival (fileReply arrival.openFile (root ++ lit "/" ++ rel)) app
  | forbidden (h : arrival.operation = .ok .forbidden) :
      Answers root app arrival ⟨403, lit "403 Forbidden"⟩ app
  | call {call : MapCall Bytes Bytes} (h : arrival.operation = .ok (.call call)) :
      Answers root app arrival (replyMessage (call.reply app.values))
        { app with values := call.apply app.values }
  | list {entries : List (Bytes × Bytes)} (h : arrival.operation = .ok .list)
      (hlists : Lists app.values entries) : Answers root app arrival ⟨200, listing entries⟩ app
  | echo {text : Bytes} (h : arrival.operation = .ok (.echo text))
      (hpaid : (app.payment arrival.clientIp arrival.now).1 = true) :
      Answers root app arrival ⟨200, lit "Received POST data: " ++ text⟩
        (app.pay arrival.clientIp arrival.now)
  | limited {text : Bytes} (h : arrival.operation = .ok (.echo text))
      (hdenied : (app.payment arrival.clientIp arrival.now).1 = false) :
      Answers root app arrival ⟨429, lit "429 Too Many Requests: rate limit exceeded."⟩ app
  | methodNotAllowed (h : arrival.operation = .ok .methodNotAllowed) :
      Answers root app arrival
        ⟨405, lit "405 Method Not Allowed: The requested method is not supported."⟩ app
  | notFound (h : arrival.operation = .ok .notFound) :
      Answers root app arrival
        ⟨404, lit "404 Not Found: The requested resource was not found on this server."⟩ app
  | malformed {code : ℕ} (h : arrival.operation = .error code) :
      Answers root app arrival ⟨code, lit "HTTP parse error (" ++ decimal code ++ lit ")"⟩ app

/-- The application behind the static files of a directory. -/
def object (root : Bytes) : SequentialObject Application Arrival Message where
  Responds := Answers root

/-! ## What the services stand for -/

/-- From a time on the services behave like the application. -/
structure Represents (root : Bytes) (app : Application) (services : Services) (now : Time) : Prop where
  root : services.staticRoot.path = root
  values : services.kv.get = app.values
  capacity : services.limiter.capacity = 1000
  refill : services.limiter.refillPerSec = 500
  stored : services.limiter.Stored now
  buckets : ∀ key, services.limiter.Tracks key now (app.buckets key)

/-- The application of services that nobody has used. -/
def initial (services : Services) (now : Time) : Application where
  values := services.kv.get
  buckets _ := .full 1000 (tokenClock now)

variable {root : Bytes} {app : Application} {services : Services} {now later : Time}

theorem represents_initial (h : services.limiter = .new) (now : Time) :
    Represents services.staticRoot.path (initial services now) services now where
  root := rfl
  values := rfl
  capacity := by rw [h]; rfl
  refill := by rw [h]; rfl
  stored := by
    rw [h]
    exact RateLimiter.stored_new now
  buckets key := by
    rw [h]
    intro time _
    rfl

namespace Represents

theorem tuned (h : Represents root app services now) : services.limiter.Tuned where
  capacity_pos := by rw [h.capacity]; norm_num
  refill_pos := by rw [h.refill]; norm_num
  evicted_full := by rw [h.capacity, h.refill]; norm_num

theorem mono (h : Represents root app services now) (hle : now ≤ later) :
    Represents root app services later where
  root := h.root
  values := h.values
  capacity := h.capacity
  refill := h.refill
  stored := h.stored.mono hle
  buckets key := (h.buckets key).mono h.tuned hle

theorem clock_eq (h : Represents root app services now) :
    services.limiter.clock = tokenClock := by
  funext time
  rw [RateLimiter.clock, h.refill, tokenClock]

theorem putValues (h : Represents root app services now) {kv : KVStore}
    {values : Bytes → Option Bytes} (hvalues : kv.get = values) :
    Represents root { app with values := values } { services with kv := kv } now where
  root := h.root
  values := hvalues
  capacity := h.capacity
  refill := h.refill
  stored := h.stored
  buckets := h.buckets

/-- The limiter answers as the bucket of the address does. -/
theorem allow_fst (h : Represents root app services now) (cleanupNow : Time) (clientIp : Bytes) :
    (services.limiter.allow now cleanupNow clientIp).1 = (app.payment clientIp now).1 := by
  have hcapacity : (services.limiter.capacity : ℚ) = 1000 := by rw [h.capacity]; norm_num
  have htake : services.limiter.taken clientIp now = (app.buckets clientIp).take
      (services.limiter.capacity : ℚ) 1 (services.limiter.clock now) :=
    (h.buckets clientIp).take_eq le_rfl
  rw [(RateLimiter.allow_spec h.tuned clientIp now cleanupNow).1, htake, hcapacity, h.clock_eq]
  rfl

/-- What the limiter is after a call, if the bucket of the address is the one behind it. -/
theorem allow_snd (h : Represents root app services now) {cleanupNow : Time} (hle : now ≤ cleanupNow)
    {clientIp : Bytes} {buckets : Bytes → TokenBucket ℚ}
    (hself : TokenBucket.SameFrom (1000 : ℚ) (tokenClock now) (app.payment clientIp now).2
      (buckets clientIp))
    (hothers : ∀ key, key ≠ clientIp → buckets key = app.buckets key) :
    Represents root { app with buckets := buckets }
      { services with limiter := (services.limiter.allow now cleanupNow clientIp).2 } cleanupNow := by
  have hcapacity : (services.limiter.capacity : ℚ) = 1000 := by rw [h.capacity]; norm_num
  have htuned := h.tuned
  let call : AllowCall := ⟨now, cleanupNow, clientIp, hle⟩
  have hparameters := RateLimiter.step_parameters htuned call
  have hstored : (services.limiter.step call).Stored cleanupNow := .step htuned h.stored
  refine ⟨h.root, h.values, hparameters.1.trans h.capacity, hparameters.2.trans h.refill, hstored, ?_⟩
  intro key
  suffices htracks : (services.limiter.step call).Tracks key cleanupNow (buckets key) from htracks
  apply RateLimiter.Tracks.step htuned h.stored
  by_cases hkey : key = clientIp
  · subst hkey
    have hcharged := (h.buckets key).charged
    rw [hcapacity, h.clock_eq] at hcharged
    intro time htime
    rw [hcharged time htime]
    have hclock : (services.limiter.charged key now).clock = tokenClock := h.clock_eq
    have hsame : ((services.limiter.charged key now).capacity : ℚ) = 1000 := hcapacity
    rw [hclock] at htime
    rw [hsame]
    exact hself time htime
  · rw [hothers key hkey]
    exact (h.buckets key).charged_of_ne hkey

end Represents

/-! ## The answer to a request -/

theorem lists_entries (store : KVStore) :
    Lists store.get (store.data.entries.map fun entry ↦ (entry.1, entry.2)) where
  nodup := by
    rw [List.map_map]
    exact store.data.nodupKeys
  mem_iff key value := by
    rw [KVStore.get, ← Option.mem_def, AList.mem_lookup_iff, List.mem_map]
    constructor
    · rintro ⟨⟨key', value'⟩, hmem, hentry⟩
      obtain ⟨rfl, rfl⟩ := Prod.mk.inj hentry
      exact hmem
    · exact fun hmem ↦ ⟨⟨key, value⟩, hmem, rfl⟩

theorem dump_eq (store : KVStore) :
    store.dump = listing (store.data.entries.map fun entry ↦ (entry.1, entry.2)) := by
  unfold KVStore.dump listing
  rw [List.flatMap_map]

theorem fileMessage_eq (env : Env) (path : Bytes) :
    Session.fileMessage env path = fileReply env.openFile path := by
  unfold Session.fileMessage fileReply
  cases env.openFile (cString path) with
  | none => rfl
  | some opened =>
    obtain ⟨fd, stat, content⟩ := opened
    rcases stat with _ | ⟨_ | _, size⟩ <;> rfl

/-- A call on the store is performed on the map that the store stands for. -/
theorem perform_call (call : MapCall Bytes Bytes) {response : HttpResponse}
    (hstatus : response.statusCode = 200) (hfile : response.hasFile = false) (clientIp : Bytes)
    (now cleanupNow : Time) (services : Services) :
    ∃ response' kv, (Operation.call call).perform clientIp now cleanupNow services response =
        some (response', { services with kv := kv }) ∧
      responseMessage response' = replyMessage (call.reply services.kv.get) ∧
      response'.hasFile = false ∧ kv.get = call.apply services.kv.get := by
  have hok (text : Bytes) : responseMessage (response.setBody text) = ⟨200, text⟩ :=
    message_setBody hstatus text
  cases call with
  | put key value => exact ⟨_, _, rfl, hok _, hfile, KVStore.get_put ..⟩
  | get key =>
    refine ⟨_, services.kv, rfl, ?_, ?_, rfl⟩
    · unfold MapCall.reply
      dsimp only
      cases services.kv.get key with
      | none => rfl
      | some value => exact hok value
    · cases services.kv.get key <;> exact hfile
  | delete key =>
    refine ⟨_, _, rfl, ?_, ?_, KVStore.get_del ..⟩
    · unfold MapCall.reply
      dsimp only
      split
      · exact hok _
      · rfl
    · split <;> exact hfile

theorem perform_echo {text clientIp : Bytes} {now cleanupNow : Time} {services : Services}
    {admitted : Bool} (h : (services.limiter.allow now cleanupNow clientIp).1 = admitted)
    (response : HttpResponse) :
    (Operation.echo text).perform clientIp now cleanupNow services response =
      some (if admitted then response.setBody (lit "Received POST data: " ++ text)
        else (response.setStatus 429).setBody (lit "429 Too Many Requests: rate limit exceeded."),
        { services with limiter := (services.limiter.allow now cleanupNow clientIp).2 }) := by
  unfold Operation.perform
  dsimp only
  rw [h]

section Route

variable {env : Env} {keepAlive : Bool} {clientIp : Bytes} {services services' : Services}
  {request : HttpRequest} {response : HttpResponse}

theorem message_of_route
    (hroute : Session.route env keepAlive clientIp services request = some (response, services'))
    (hfile : response.hasFile = false) :
    Session.message env keepAlive clientIp services request = responseMessage response ∧
      (Session.answer env keepAlive clientIp services request).services = services' := by
  unfold Session.message Session.answer
  rw [hroute]
  simp [hfile]

theorem message_of_route_file
    (hroute : Session.route env keepAlive clientIp services request = some (response, services'))
    (hfile : response.hasFile = true) :
    Session.message env keepAlive clientIp services request =
        fileReply env.openFile response.filePath ∧
      (Session.answer env keepAlive clientIp services request).services = services' := by
  have hservices : (Session.fileAnswer env keepAlive services' response.filePath).services =
      services' := by
    unfold Session.fileAnswer
    split
    · rfl
    · split <;> rfl
  unfold Session.message Session.answer
  rw [hroute]
  simp [hfile, fileMessage_eq, hservices]

theorem message_of_route_none (hroute : Session.route env keepAlive clientIp services request = none) :
    Session.message env keepAlive clientIp services request =
        responseMessage (Session.routeNotFound (Session.initialResponse keepAlive)) ∧
      (Session.answer env keepAlive clientIp services request).services = env.others services := by
  unfold Session.message Session.answer
  rw [hroute]
  exact ⟨rfl, rfl⟩

end Route

/-- The answer to a request is one of the application, and the services behind it represent the
application behind it. -/
theorem Represents.answers (h : Represents root app services now) {env : TurnEnv}
    (hnow : now ≤ env.now) (hclean : env.now ≤ env.cleanupNow) {request : HttpRequest}
    (hpath : request.path.head? = some slash) (keepAlive : Bool) (clientIp : Bytes) :
    ∃ next, Answers root app ⟨.ok request, clientIp, env.now, env.openFile⟩
        (Session.message env.toEnv keepAlive clientIp services request) next ∧
      Represents root next (Session.answer env.toEnv keepAlive clientIp services request).services
        env.cleanupNow := by
  have hready := h.mono hnow
  have hlater := hready.mono hclean
  have hroute : Session.route env.toEnv keepAlive clientIp services request =
      (operationOf request).perform clientIp env.now env.cleanupNow services
        (Session.initialResponse keepAlive) := dispatch_eq_perform hpath ..
  have hnoFile : (Session.initialResponse keepAlive).hasFile = false := by cases keepAlive <;> rfl
  have hstatus : (Session.initialResponse keepAlive).statusCode = 200 := by cases keepAlive <;> rfl
  have hok (text : Bytes) : responseMessage ((Session.initialResponse keepAlive).setBody text) =
      ⟨200, text⟩ := message_setBody hstatus text
  have hoperation : (⟨.ok request, clientIp, env.now, env.openFile⟩ : Arrival).operation =
      .ok (operationOf request) := rfl
  cases hop : operationOf request with
  | page text =>
    rw [hop] at hroute hoperation
    obtain ⟨hmessage, hservices⟩ := message_of_route hroute hnoFile
    rw [hmessage, hservices, hok]
    exact ⟨app, .page hoperation, hlater⟩
  | file rel =>
    rw [hop] at hroute hoperation
    obtain ⟨hmessage, hservices⟩ := message_of_route_file hroute rfl
    rw [hmessage, hservices]
    have hpath : ((Session.initialResponse keepAlive).setFile
      (services.staticRoot.path ++ lit "/" ++ rel)).filePath = root ++ lit "/" ++ rel := by
      rw [← h.root]
      rfl
    rw [hpath]
    exact ⟨app, .file hoperation, hlater⟩
  | forbidden =>
    rw [hop] at hroute hoperation
    obtain ⟨hmessage, hservices⟩ := message_of_route hroute hnoFile
    rw [hmessage, hservices]
    exact ⟨app, .forbidden hoperation, hlater⟩
  | call call =>
    rw [hop] at hroute hoperation
    obtain ⟨response, kv, hperform, hreply, hfile, hstore⟩ :=
      perform_call call hstatus hnoFile clientIp env.now env.cleanupNow services
    obtain ⟨hmessage, hservices⟩ := message_of_route (hroute.trans hperform) hfile
    rw [hmessage, hservices, hreply, h.values]
    exact ⟨_, .call hoperation, hlater.putValues (hstore.trans (h.values ▸ rfl))⟩
  | list =>
    rw [hop] at hroute hoperation
    obtain ⟨hmessage, hservices⟩ := message_of_route hroute hnoFile
    rw [hmessage, hservices, hok, dump_eq]
    exact ⟨app, .list hoperation (h.values ▸ lists_entries services.kv), hlater⟩
  | echo text =>
    rw [hop] at hroute hoperation
    have hasked := hready.allow_fst env.cleanupNow clientIp
    cases hpaid : (app.payment clientIp env.now).1 with
    | true =>
      obtain ⟨hmessage, hservices⟩ :=
        message_of_route (hroute.trans (perform_echo (hasked.trans hpaid) _)) hnoFile
      rw [hmessage, hservices, if_pos rfl, hok]
      refine ⟨app.pay clientIp env.now, .echo hoperation hpaid, hready.allow_snd hclean ?_ ?_⟩
      · intro time _
        rw [Function.update_self]
      · exact fun key hkey ↦ Function.update_of_ne hkey ..
    | false =>
      obtain ⟨hmessage, hservices⟩ :=
        message_of_route (hroute.trans (perform_echo (hasked.trans hpaid) _)) hnoFile
      rw [hmessage, hservices]
      refine ⟨app, .limited hoperation hpaid, hready.allow_snd hclean ?_ fun _ _ ↦ rfl⟩
      exact TokenBucket.sameFrom_of_denied hpaid
  | methodNotAllowed =>
    rw [hop] at hroute hoperation
    obtain ⟨hmessage, hservices⟩ := message_of_route hroute hnoFile
    rw [hmessage, hservices]
    exact ⟨app, .methodNotAllowed hoperation, hlater⟩
  | notFound =>
    rw [hop] at hroute hoperation
    obtain ⟨hmessage, hservices⟩ := message_of_route_none hroute
    rw [hmessage, hservices]
    exact ⟨app, .notFound hoperation, hlater⟩

end Application

end WebServer
