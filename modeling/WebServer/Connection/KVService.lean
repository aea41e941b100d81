import WebServer.Connection.Cluster
import WebServer.Connection.Fragmentation
import WebServer.Connection.HalfClose
import WebServer.Connection.ResponseStream
import WebServer.Service.KVRequests

/-!
# One map behind many connections

Clients write requests on the store to any number of connections, and the requests are dispatched in
some order. What a connection has dispatched is the beginning of what its client writes, and what it has
queued are the replies that one map gives to these calls when it executes the calls of all connections
in the order of the history. A connection that waits for its next event has sent all its replies.
-/

namespace WebServer

open Bytes HttpServer OutSegment Execution Framer KVRequest

/-- How many complete requests a buffer starts with. -/
def pipelined (buffer : Bytes) : ℕ := (requestFramer.drain buffer).messages.length

theorem pipelined_of_ok {buffer : Bytes} {request : HttpRequest} {consumed : ℕ}
    (hparse : HttpRequest.parse buffer = .ok request consumed) (hkeep : request.keepAlive = true) :
    pipelined buffer = pipelined (buffer.drop consumed) + 1 := by
  have hfinal : requestFramer.final request = false := by
    simp [requestFramer, hkeep]
  have hread : requestFramer.Reads buffer [request] (buffer.drop consumed) :=
    .cons hparse hfinal (.refl _)
  unfold pipelined
  rw [hread.drain_messages, List.length_append, Nat.add_comm]
  rfl

theorem EncodesAll.of_accounts {messages : List Message} {session session' : Session}
    {exchanges : List Exchange} (h : EncodesAll messages (queued session.trace))
    (haccounts : session.Accounts session' exchanges) :
    EncodesAll (messages ++ exchanges.map Exchange.message) (queued session'.trace) := by
  obtain ⟨-, text, htext, hencodes⟩ := haccounts
  rw [htext]
  exact h.append hencodes

namespace Session

/-- The answer to a request on the store is one segment, with the reply of the map. -/
theorem answer_kv (env : TurnEnv) {request : HttpRequest} (h : IsKVRequest request)
    (keepAlive : Bool) (clientIp : Bytes) (services : Services) :
    (answer env.toEnv keepAlive clientIp services request).segments.length = 1 ∧
      message env.toEnv keepAlive clientIp services request =
        replyMessage ((callOf request).reply services.kv.get) ∧
      (answer env.toEnv keepAlive clientIp services request).services.kv.get =
        (callOf request).apply services.kv.get := by
  have hstatus : (initialResponse keepAlive).statusCode = 200 := by cases keepAlive <;> rfl
  have hnoFile : (initialResponse keepAlive).hasFile = false := by cases keepAlive <;> rfl
  obtain ⟨⟨response, services'⟩, hroute, hperforms⟩ : ∃ result,
      route env.toEnv keepAlive clientIp services request = some result ∧
        Performs (callOf request) services (initialResponse keepAlive) result :=
    dispatch_kv hstatus h clientIp env.now env.cleanupNow
  have hfile : response.hasFile = false := hperforms.hasFile.trans hnoFile
  unfold answer message
  rw [hroute]
  dsimp only
  rw [if_neg (by simp [hfile]), if_neg (by simp [hfile])]
  exact ⟨rfl, hperforms.reply, hperforms.store⟩

/-! ## One connection -/

/-- What one connection has done for a client that writes the requests `sent`: it dispatched some of
them, which are the given calls, and queued the given replies. -/
structure Served (sent : List KVRequest) (calls : List (MapCall Bytes Bytes))
    (replies : List (MapReply Bytes)) (session : Session) (phase : Phase) : Prop where
  progress : ∃ done later, sent = done ++ later ∧ calls = done.map KVRequest.call ∧
    received session.trace = stream done ++ session.server.inBuffer ∧
    session.server.inBuffer <+: stream later
  encodes : EncodesAll (replies.map replyMessage) (queued session.trace)
  ledger : session.Ledger []
  closed_idle : session.server.closed = true → phase = .idle
  undecided : session.server.closeAfterFlush = false
  flushed : phase = .idle → session.server.outQueue = []
  room : phase = .processing →
    session.server.outQueue.length + pipelined session.server.inBuffer ≤ maxOutSegments
  starved : session.server.closed = false → phase ≠ .processing →
    HttpRequest.parse session.server.inBuffer = .needMore

/-- What a receive loop brings to a connection whose client writes `text`: further bytes of the text,
with not more requests than the queue has room for. -/
structure Arrives (text : Bytes) (session : Session) (recvs : List RecvResult) : Prop where
  in_order : received session.trace ++ (recvScan session.server.inBuffer.length recvs).1 <+: text
  pipelined_le : pipelined (session.server.inBuffer ++
    (recvScan session.server.inBuffer.length recvs).1) ≤ maxOutSegments

variable {sent : List KVRequest} {calls : List (MapCall Bytes Bytes)}
  {replies : List (MapReply Bytes)} {session session' : Session} {phase : Phase}

theorem served_new (sent : List KVRequest) (fd : ℕ) (clientIp : Bytes) (services : Services) :
    Served sent [] [] (new fd clientIp services) .idle where
  progress := ⟨[], sent, rfl, rfl, rfl, List.nil_prefix⟩
  encodes := .nil
  ledger := ledger_start (HttpServer.new fd clientIp) services
  closed_idle _ := rfl
  undecided := rfl
  flushed _ := rfl
  room h := absurd h (by simp)
  starved _ _ := rfl

/-- What other connections do to the services leaves a connection as it is. -/
theorem Served.congr (h : Served sent calls replies session phase)
    (hserver : session'.server = session.server) (htrace : session'.trace = session.trace) :
    Served sent calls replies session' phase where
  progress := by
    rw [hserver, htrace]
    exact h.progress
  encodes := htrace ▸ h.encodes
  ledger := h.ledger.of_same htrace (by rw [hserver])
  closed_idle := hserver ▸ h.closed_idle
  undecided := hserver ▸ h.undecided
  flushed := hserver ▸ h.flushed
  room := hserver ▸ h.room
  starved := hserver ▸ h.starved

/-- The accepted bytes of a connection between two events are all its replies. -/
theorem Served.accepted_eq (h : Served sent calls replies session .idle) :
    accepted session.trace = queued session.trace := by
  have hbalanced := h.ledger.balanced
  unfold Balanced at hbalanced
  rwa [h.flushed rfl, denoteQueue_nil, List.append_nil] at hbalanced

theorem Served.accepted_prefix (h : Served sent calls replies session phase) :
    accepted session.trace <+: queued session.trace :=
  h.ledger.balanced.accepted_prefix

theorem Served.receive (h : Served sent calls replies session .idle) {recvs : List RecvResult}
    (harrives : Arrives (stream sent) session recvs) :
    Served sent calls replies (session.recvIntoBuffer recvs)
      (if (session.recvIntoBuffer recvs).server.closed then .idle else .processing) := by
  have hserver := recvIntoBuffer_server session recvs
  have hrecv := received_recvIntoBuffer session recvs
  obtain ⟨horder, hlimit⟩ := harrives
  generalize (recvScan session.server.inBuffer.length recvs).1 = data at horder hlimit hserver hrecv
  have hbuffer : (session.recvIntoBuffer recvs).server.inBuffer = session.server.inBuffer ++ data := by
    rw [hserver]
  have hqueue : (session.recvIntoBuffer recvs).server.outQueue = [] := by
    rw [hserver]
    exact h.flushed rfl
  obtain ⟨done, later, hsent, hcalls, hread, -⟩ := h.progress
  refine ⟨⟨done, later, hsent, hcalls, ?_, ?_⟩, ?_, h.ledger.recvIntoBuffer recvs, ?_, ?_, ?_, ?_, ?_⟩
  · rw [hrecv, hread, hbuffer, List.append_assoc]
  · have hstream : stream sent = stream done ++ stream later := by
      rw [hsent]
      exact List.flatMap_append
    rw [hread, hstream, List.append_assoc] at horder
    rw [hbuffer]
    exact (List.prefix_append_right_inj _).mp horder
  · have hencodes := h.encodes.of_accounts (accounts_recvIntoBuffer session recvs)
    rwa [List.map_nil, List.append_nil] at hencodes
  · intro hclosed
    exact if_pos hclosed
  · rw [hserver]
    exact h.undecided
  · intro _
    exact hqueue
  · intro _
    rw [hqueue, hbuffer]
    exact (Nat.zero_add _).trans_le hlimit
  · intro hstays hphase
    rw [hstays] at hphase
    exact absurd rfl hphase

/-- A turn that finds no complete request ends the processing. -/
theorem Served.starve (h : Served sent calls replies session .processing)
    (hparse : HttpRequest.parse session.server.inBuffer = .needMore) :
    Served sent calls replies session .flushing where
  progress := h.progress
  encodes := h.encodes
  ledger := h.ledger
  closed_idle hclosed := absurd (h.closed_idle hclosed) (by simp)
  undecided := h.undecided
  flushed hphase := absurd hphase (by simp)
  room hphase := absurd hphase (by simp)
  starved _ _ := hparse

/-- A turn that finds a request dispatches it. -/
theorem Served.dispatch (h : Served sent calls replies session .processing) (env : TurnEnv)
    {done later : List KVRequest} {request : KVRequest} {tail : Bytes}
    (hsent : sent = done ++ request :: later) (hcalls : calls = done.map KVRequest.call)
    (hread : received session.trace = stream done ++ session.server.inBuffer)
    (hbuffer : session.server.inBuffer = request.serialize ++ tail) (htail : tail <+: stream later) :
    Served sent (calls ++ [request.call])
      (replies ++ [request.call.reply session.services.kv.get])
      (session.afterRequest env.toEnv request.parsed request.serialize.length) .processing := by
  have hparse : HttpRequest.parse session.server.inBuffer =
      .ok request.parsed request.serialize.length := by
    rw [hbuffer]
    exact request.parse_serialize_append tail
  have hkeep := request.keepAlive_parsed
  have hdrop : session.server.inBuffer.drop request.serialize.length = tail := by
    rw [hbuffer, List.drop_left]
  obtain ⟨hone, hmessage, -⟩ := answer_kv env request.isKVRequest_parsed request.parsed.keepAlive
    session.server.clientIp session.services
  have hserver := afterRequest_server session env.toEnv request.parsed request.serialize.length
  have hroom := h.room rfl
  rw [pipelined_of_ok hparse hkeep] at hroom
  refine ⟨⟨done ++ [request], later, by rw [hsent]; simp, by rw [hcalls]; simp, ?_, ?_⟩, ?_,
    h.ledger.afterRequest _ _ _, ?_, ?_, ?_, ?_, ?_⟩
  · have hinput := (afterRequest_input session env.toEnv request.parsed
      request.serialize.length).2.2
    rw [hinput, hread, hserver]
    dsimp only
    rw [hdrop, hbuffer]
    simp [stream]
  · rw [hserver]
    dsimp only
    rwa [hdrop]
  · have hencodes := h.encodes.of_accounts (accounts_afterRequest session env.toEnv request.parsed
      request.serialize.length)
    rw [List.map_append, ← request.callOf_parsed]
    rwa [List.map_singleton, hmessage] at hencodes
  · rw [hserver]
    intro hclosed
    exact absurd (h.closed_idle hclosed) (by simp)
  · rw [hserver, hkeep]
    exact h.undecided
  · intro hphase
    exact absurd hphase (by simp)
  · intro _
    rw [hserver]
    dsimp only
    have hsegments : (session.nextAnswer env.toEnv request.parsed).segments.length = 1 := hone
    rw [List.length_append, hsegments]
    omega
  · intro _ hphase
    exact absurd rfl hphase

/-- After a flush that never blocks nothing is left to send. -/
theorem Served.flush (h : Served sent calls replies session phase) (hphase : phase ≠ .processing)
    {sends : ℕ → SysResult} (hpos : ∀ i, 0 < (sends i).ret) :
    Served sent calls replies (session.handleWrite sends) .idle := by
  unfold handleWrite
  split
  · rename_i hclosed
    exact h.closed_idle hclosed ▸ h
  rename_i hopen
  have hserver := tryFlush_server_of_pos hpos session
  have hreceived := (tryFlush_input sends session).2.2
  obtain ⟨done, later, hsent, hcalls, hread, hbuffer⟩ := h.progress
  refine ⟨⟨done, later, hsent, hcalls, ?_, ?_⟩, ?_, h.ledger.tryFlush sends, fun _ ↦ rfl, ?_, ?_, ?_, ?_⟩
  · rw [hreceived, hread, hserver]
  · rw [hserver]
    exact hbuffer
  · have hencodes := h.encodes.of_accounts (accounts_tryFlush sends session)
    rwa [List.map_nil, List.append_nil] at hencodes
  · rw [hserver]
    exact h.undecided
  · intro _
    rw [hserver]
  · intro hphase
    exact absurd hphase (by simp)
  · intro _ _
    rw [hserver]
    exact h.starved (by simpa using hopen) hphase

/-- Closing a connection between two events takes nothing back. -/
theorem Served.close (h : Served sent calls replies session .idle) :
    Served sent calls replies (session.step .close) .idle := by
  have hencodes := h.encodes.of_accounts (accounts_step session .close)
  have hnone : session.stepExchanges .close = [] := rfl
  rw [hnone, List.map_nil, List.append_nil] at hencodes
  have hledger := h.ledger.step .close
  unfold step at hencodes hledger ⊢
  dsimp only at hencodes hledger ⊢
  split
  · exact h
  · rename_i hopen
    rw [if_neg hopen] at hencodes hledger
    obtain ⟨done, later, hsent, hcalls, hread, hbuffer⟩ := h.progress
    refine ⟨⟨done, later, hsent, hcalls, ?_, hbuffer⟩, hencodes, hledger, fun _ ↦ rfl, h.undecided,
      h.flushed, fun hphase ↦ absurd hphase (by simp), fun hstays ↦ absurd hstays (by simp)⟩
    rw [closeConnection_trace, received_append, hread]
    exact List.append_nil _

end Session

/-! ## All connections -/

namespace Cluster

variable {ι : Type*} [DecidableEq ι]

/-- The calls the dispatched requests stand for, in the order of the history. -/
def calls (cluster : Cluster ι) : List (ι × MapCall Bytes Bytes) :=
  cluster.history.map fun entry ↦ (entry.1, callOf entry.2)

/-- The replies of one map that executes these calls in this order. -/
def replies (initial : Bytes → Option Bytes) (cluster : Cluster ι) : List (ι × MapReply Bytes) :=
  MapCall.replies initial cluster.calls

/-- The moves of clients that write the requests `sent` to sockets that take all output. -/
def Admissible (sent : ι → List KVRequest) (cluster : Cluster ι) : Move ι → Prop
  | .receive client recvs =>
    (cluster.connection client).phase = .idle → (cluster.connection client).server.closed = false →
      Session.Arrives (stream (sent client)) (cluster.session client) recvs
  | .flush _ sends | .write _ sends => ∀ i, 0 < (sends i).ret
  | .turn .. | .close _ => True

/-- The store is the map after all calls, and every connection serves its client. -/
structure Serves (initial : Bytes → Option Bytes) (sent : ι → List KVRequest)
    (cluster : Cluster ι) : Prop where
  store : cluster.services.kv.get = MapCall.after initial cluster.calls
  served : ∀ client, Session.Served (sent client) (partOf client cluster.calls)
    (partOf client (cluster.replies initial)) (cluster.session client)
    (cluster.connection client).phase

variable {initial : Bytes → Option Bytes} {sent : ι → List KVRequest} {cluster : Cluster ι}
  {client : ι}

theorem Serves.put {session : Session} {phase : Phase}
    (hstore : session.services.kv.get = MapCall.after initial cluster.calls)
    (hself : Session.Served (sent client) (partOf client cluster.calls)
      (partOf client (cluster.replies initial)) session phase)
    (hothers : ∀ other, other ≠ client → Session.Served (sent other) (partOf other cluster.calls)
      (partOf other (cluster.replies initial)) (cluster.session other)
      (cluster.connection other).phase) :
    Serves initial sent (cluster.put client session phase) where
  store := hstore
  served other := by
    by_cases hother : other = client
    · subst hother
      rw [session_put, put_connection_self]
      exact hself
    · have hconnection : (cluster.put client session phase).connection other =
          cluster.connection other := put_connection_of_ne session phase hother
      rw [hconnection]
      refine (hothers other hother).congr ?_ ?_
      · exact congrArg Connection.server hconnection
      · exact congrArg Connection.trace hconnection

theorem Serves.receive (h : Serves initial sent cluster) {recvs : List RecvResult}
    (hidle : (cluster.connection client).phase = .idle)
    (harrives : Session.Arrives (stream (sent client)) (cluster.session client) recvs) :
    Serves initial sent (cluster.put client ((cluster.session client).recvIntoBuffer recvs)
      (if ((cluster.session client).recvIntoBuffer recvs).server.closed then .idle
      else .processing)) := by
  have hserved := h.served client
  rw [hidle] at hserved
  have hservices := (Session.recvIntoBuffer_extends (cluster.session client) recvs).2
  refine Serves.put ?_ (hserved.receive harrives) fun other _ ↦ h.served other
  rw [hservices]
  exact h.store

/-- The turn of a connection is one call on the map, or none. -/
theorem Serves.turn (h : Serves initial sent cluster) (env : TurnEnv)
    (hprocessing : (cluster.connection client).phase = .processing) :
    Serves initial sent (cluster.turn client env) := by
  have hserved := h.served client
  rw [hprocessing] at hserved
  obtain ⟨done, later, hsent, hcalls, hread, hbuffer⟩ := hserved.progress
  unfold Cluster.turn
  rcases parse_stream hbuffer with ⟨request, later, tail, rfl, hsplit, htail, hparse⟩ | ⟨hparse, -⟩
  · have hdispatch := hserved.dispatch env hsent hcalls hread hsplit htail
    have hroom : ¬ maxOutSegments < ((cluster.session client).afterRequest env.toEnv request.parsed
        request.serialize.length).server.outQueue.length := by
      have hfits := hdispatch.room rfl
      omega
    rw [Session.processTurn_ok hparse, if_neg (by simp [request.keepAlive_parsed]), if_neg hroom]
    dsimp only
    have hfirst : HttpRequest.parse (cluster.connection client).server.inBuffer =
        .ok request.parsed request.serialize.length := hparse
    have hnext : cluster.nextRequest client = [(client, request.parsed)] := by
      unfold nextRequest
      rw [hfirst]
    have hrecorded : (cluster.record client).calls = cluster.calls ++ [(client, request.call)] := by
      unfold calls record
      rw [hnext, List.map_append, ← request.callOf_parsed]
      rfl
    have hreplied : (cluster.record client).replies initial = cluster.replies initial ++
        [(client, request.call.reply cluster.services.kv.get)] := by
      unfold replies
      rw [hrecorded, MapCall.replies_concat, h.store]
    refine Serves.put ?_ ?_ fun other hother ↦ ?_
    · rw [hrecorded, MapCall.after_concat, ← h.store, ← request.callOf_parsed]
      exact (Session.answer_kv env request.isKVRequest_parsed _ _ _).2.2
    · rw [hrecorded, hreplied, partOf_append, partOf_append, partOf_singleton_self,
        partOf_singleton_self]
      exact hdispatch
    · rw [hrecorded, hreplied, partOf_append, partOf_append,
        partOf_singleton_of_ne (Ne.symm hother), partOf_singleton_of_ne (Ne.symm hother),
        List.append_nil, List.append_nil]
      exact h.served other
  · rw [Session.processTurn_needMore hparse]
    dsimp only
    have hstarved : HttpRequest.parse (cluster.connection client).server.inBuffer = .needMore := hparse
    have hnext : cluster.nextRequest client = [] := by
      unfold nextRequest
      rw [hstarved]
    have hsame : cluster.record client = cluster := by
      unfold record
      rw [hnext, List.append_nil]
    rw [hsame]
    exact Serves.put h.store (hserved.starve hparse) fun other _ ↦ h.served other

theorem Serves.write (h : Serves initial sent cluster)
    (hphase : (cluster.connection client).phase ≠ .processing) {sends : ℕ → SysResult}
    (hpos : ∀ i, 0 < (sends i).ret) :
    Serves initial sent
      (cluster.put client ((cluster.session client).handleWrite sends) .idle) := by
  refine Serves.put ?_ ((h.served client).flush hphase hpos) fun other _ ↦ h.served other
  unfold Session.handleWrite
  split
  · exact h.store
  · rw [(Session.tryFlush_flushed sends (cluster.session client)).services]
    exact h.store

theorem Serves.close (h : Serves initial sent cluster)
    (hidle : (cluster.connection client).phase = .idle) :
    Serves initial sent (cluster.put client ((cluster.session client).step .close) .idle) := by
  have hserved := h.served client
  rw [hidle] at hserved
  refine Serves.put ?_ hserved.close fun other _ ↦ h.served other
  unfold Session.step
  dsimp only
  split <;> exact h.store

theorem Serves.step (h : Serves initial sent cluster) (move : Move ι)
    (hmove : Admissible sent cluster move) : Serves initial sent (cluster.step move) := by
  have hacts := acts_step cluster move
  generalize cluster.step move = next at hacts ⊢
  cases hacts with
  | skip => exact h
  | receive hidle hopen => exact h.receive hidle (hmove hidle hopen)
  | turn hprocessing => exact h.turn _ hprocessing
  | write hkind hphase =>
    rcases hkind with rfl | rfl
    · exact h.write hphase hmove
    · exact h.write hphase hmove
  | close hidle => exact h.close hidle

theorem serves_new (services : Services) (fds : ι → ℕ) (clientIps : ι → Bytes)
    (sent : ι → List KVRequest) :
    Serves services.kv.get sent (new services fds clientIps) where
  store := rfl
  served client := Session.served_new (sent client) (fds client) (clientIps client) services

/-- To the clients that write the requests `sent` the process is one map: they decode the replies to
their calls from what they get, all of them once their connections wait for further events, and the
replies are those of a map that executes the calls in the order in which they were dispatched. -/
structure ActsAsMap (initial : Bytes → Option Bytes) (sent : ι → List KVRequest)
    (cluster : Cluster ι) : Prop where
  recorded : ∀ client, dispatched (cluster.connection client).trace = partOf client cluster.history
  in_order : ∀ client, partOf client cluster.calls <+: (sent client).map KVRequest.call
  decoded : ∀ client,
    (responseFramer.drain (accepted (cluster.connection client).trace)).messages <+:
      (partOf client (cluster.replies initial)).map replyMessage
  answered : ∀ client, (cluster.connection client).phase = .idle →
    responseFramer.drain (accepted (cluster.connection client).trace) =
      ⟨(partOf client (cluster.replies initial)).map replyMessage, none⟩
  complete : ∀ client, (cluster.connection client).phase = .idle →
    (cluster.connection client).server.closed = false →
    received (cluster.connection client).trace = stream (sent client) →
    partOf client cluster.calls = (sent client).map KVRequest.call

theorem Serves.actsAsMap (h : Serves initial sent cluster) (hrecorded : cluster.Recorded) :
    ActsAsMap initial sent cluster := by
  refine ⟨hrecorded, fun client ↦ ?_, fun client ↦ ?_, fun client hidle ↦ ?_,
    fun client hidle hopen hall ↦ ?_⟩
  · obtain ⟨done, later, hsent, hcalls, -⟩ := (h.served client).progress
    rw [hsent, hcalls, List.map_append]
    exact List.prefix_append ..
  · have hqueued := (h.served client).encodes.reads.drain_of_needMore rfl
    obtain ⟨unsent, hunsent⟩ := Session.Served.accepted_prefix (h.served client)
    have hdecoded := responseFramer.drain_messages_prefix
      (accepted (cluster.session client).trace) unsent
    rwa [hunsent, hqueued] at hdecoded
  · have hserved := h.served client
    rw [hidle] at hserved
    have hqueued := hserved.encodes.reads.drain_of_needMore rfl
    rwa [← hserved.accepted_eq] at hqueued
  · obtain ⟨done, later, hsent, hcalls, hread, hbuffer⟩ := (h.served client).progress
    have hneedMore := (h.served client).starved hopen (by simp [hidle])
    have hstream : stream (sent client) = stream done ++ stream later := by
      rw [hsent]
      exact List.flatMap_append
    have hwhole : (cluster.session client).server.inBuffer = stream later :=
      List.append_cancel_left (hread.symm.trans (hall.trans hstream))
    rcases parse_stream hbuffer with ⟨request, rest, tail, -, -, -, hparse⟩ | ⟨-, hnil⟩
    · exact absurd (hneedMore.symm.trans hparse) (by simp)
    · rw [hsent, hnil hwhole, List.append_nil]
      exact hcalls

/-- Whatever requests on the store clients write to any number of connections, however they arrive and
in whatever order the connections take their turns, the process acts as one map. -/
theorem kv_acts_as_map (services : Services) (fds : ι → ℕ) (clientIps : ι → Bytes)
    (sent : ι → List KVRequest) (moves : List (Move ι))
    (hmoves : Always step (Admissible sent) (new services fds clientIps) moves) :
    ActsAsMap services.kv.get sent (run step (new services fds clientIps) moves) := by
  have hserves : Serves services.kv.get sent (run step (new services fds clientIps) moves) :=
    run_invariant (fun _ move h hmove ↦ h.step move hmove)
      (serves_new services fds clientIps sent) hmoves
  exact hserves.actsAsMap (recorded_run services fds clientIps moves)

/-! ## A run of two clients -/

def samplePut : KVRequest :=
  .ofBody .put (lit "a") (lit "1") (by decide) (by decide) (by decide) (by decide +kernel) (by decide)
    (by decide)

def sampleGet : KVRequest :=
  .ofBody .get (lit "a") [] (by decide) (by decide) (by decide) (by decide +kernel) (by decide)
    (by decide)

def sampleSent : Bool → List KVRequest
  | true => [samplePut]
  | false => [sampleGet]

def sampleTurn (client : Bool) : Move Bool := .turn client ⟨0, 0, fun _ ↦ none⟩

def sampleFlush (client : Bool) : Move Bool := .flush client fun _ ↦ ⟨40, 0⟩

/-- One client stores a value in two pieces, and the other reads it between the turns of the first. -/
def sampleMoves : List (Move Bool) :=
  [.receive true [.received (samplePut.serialize.take 20)], sampleTurn true, sampleFlush true,
    .receive false [.received sampleGet.serialize],
    .receive true [.received (samplePut.serialize.drop 20)],
    sampleTurn true, sampleTurn false, sampleTurn false, sampleFlush false, sampleTurn true]

theorem kv_acts_as_map_sampleMoves :
    responseFramer.drain (accepted ((run step
      (new ⟨⟨∅⟩, .new, .static⟩ (fun _ ↦ 7) (fun _ ↦ lit "10.0.0.1")) sampleMoves).connection
        false).trace) = ⟨[⟨200, lit "1"⟩], none⟩ := by
  have hpos : ∀ _ : ℕ, 0 < (SysResult.mk 40 0).ret := fun _ ↦ by decide
  have hmap := kv_acts_as_map ⟨⟨∅⟩, .new, .static⟩ (fun _ ↦ 7) (fun _ ↦ lit "10.0.0.1") sampleSent
    sampleMoves
    ⟨fun _ _ ↦ ⟨by decide, by decide⟩, trivial, hpos,
      fun _ _ ↦ ⟨by decide, by decide⟩,
      fun _ _ ↦ ⟨by decide, by decide⟩,
      trivial, trivial, trivial, hpos, trivial, trivial⟩
  have hreplies : (partOf false (Cluster.replies (KVStore.get ⟨∅⟩) (run step
      (new ⟨⟨∅⟩, .new, .static⟩ (fun _ ↦ 7) (fun _ ↦ lit "10.0.0.1")) sampleMoves))).map
        replyMessage = [⟨200, lit "1"⟩] := by
    decide
  have hidle : ((run step (new ⟨⟨∅⟩, .new, .static⟩ (fun _ ↦ 7) (fun _ ↦ lit "10.0.0.1"))
      sampleMoves).connection false).phase = .idle := by
    decide
  rw [hmap.answered false hidle, hreplies]

end Cluster

end WebServer
