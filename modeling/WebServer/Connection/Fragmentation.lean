import WebServer.Connection.Input

/-!
# Requests do not depend on how they arrive

Every read event parses the buffer from its start and leaves what is not yet a request in it. What a
connection has dispatched and refused is therefore what `requestFramer` reads from the bytes received
so far. Two runs that receive the same stream in different pieces, from a peer that takes all output,
answer the same requests and end with the same parse error.
-/

namespace WebServer

open Bytes HttpServer Execution Framer

namespace RecvResult

def bytes : RecvResult → Bytes
  | received data => data
  | failed _ => []

end RecvResult

namespace Event

/-- A read event that receives some data in non-empty pieces and whose sends never block or fail. -/
def IsDelivery : Event → Prop
  | read recvs _ sends => (∀ result ∈ recvs, ∃ data, data ≠ [] ∧ result = .received data) ∧
      ∀ i, 0 < (sends i).ret
  | _ => False

/-- The bytes a read event brings. -/
def chunk : Event → Bytes
  | read recvs _ _ => recvs.flatMap RecvResult.bytes
  | _ => []

end Event

/-- The events deliver the stream, cut into one chunk for each event. -/
structure Delivers (events : List Event) (stream : Bytes) : Prop where
  deliveries : ∀ event ∈ events, event.IsDelivery
  flatMap_chunk : events.flatMap Event.chunk = stream

/-- A receive loop gets the whole chunk unless the buffer overflows. -/
theorem recvScan_of_delivery {recvs : List RecvResult} {size : ℕ}
    (hpieces : ∀ result ∈ recvs, ∃ data, data ≠ [] ∧ result = .received data)
    (hlimit : (recvScan size recvs).2 ≠ .overflow) :
    recvScan size recvs = (recvs.flatMap RecvResult.bytes, .drained) := by
  induction recvs generalizing size with
  | nil => rfl
  | cons result recvs ih =>
    obtain ⟨data, hdata, rfl⟩ := hpieces result List.mem_cons_self
    by_cases hmax : maxInBuffer < size + data.length
    · exact absurd (by simp [recvScan, hdata, hmax]) hlimit
    · simp only [recvScan, if_neg hdata, if_neg hmax] at hlimit ⊢
      rw [ih (fun result hmem ↦ hpieces result (List.mem_cons_of_mem _ hmem)) hlimit]
      rfl

namespace Session

variable {session session' : Session}

/-- A turn of the flush whose call moves bytes leaves the loop only when nothing is left. -/
theorem flushTurn_exit_of_pos {state : Session × (ℕ → SysResult)} (hpos : 0 < (state.2 0).ret)
    (hexit : flushTurn state = .exit session') :
    state.1.server.outQueue = [] ∧ session' = state.1.finishFlush := by
  simp only [flushTurn, if_pos hpos] at hexit
  split at hexit
  · rename_i hqueue
    exact ⟨hqueue, (Turn.exit.inj hexit).symm⟩
  · split at hexit <;> exact absurd hexit (by simp)
  · split at hexit <;> exact absurd hexit (by simp)

/-- A flush that never blocks sends everything, and closes the connection if that was decided. -/
theorem tryFlush_server_of_pos {results : ℕ → SysResult} (hpos : ∀ i, 0 < (results i).ret)
    (session : Session) : (session.tryFlush results).server =
      { session.server with
        outQueue := []
        writeRegistered := false
        closed := session.server.closed || session.server.closeAfterFlush } := by
  refine flushLoop.run_induct (motive := fun state result ↦ (∀ i, 0 < (state.2 i).ret) →
    result.server = { state.1.server with
      outQueue := []
      writeRegistered := false
      closed := state.1.server.closed || state.1.server.closeAfterFlush })
    ?_ ?_ (session, results) hpos
  · intro state result hbody hpos
    obtain ⟨hqueue, rfl⟩ := flushTurn_exit_of_pos (hpos 0) hbody
    rw [finishFlush_server, ← hqueue]
  · intro state state' result hbody ih hpos
    obtain ⟨hstep, hresults⟩ := flushTurn_of_next hbody
    obtain ⟨-, ⟨queue, hserver⟩, -⟩ := hstep.effect
    have hpos' : ∀ i, 0 < (state'.2 i).ret := by
      intro i
      rcases hresults with hsame | hlater
      · exact hsame ▸ hpos i
      · exact hlater ▸ hpos (i + 1)
    rw [ih hpos', hserver]

/-! ## Reading along a run -/

/-- A connection that has seen `seen`, the front of `stream`: while it is open it has read all
complete requests of `seen` and keeps the rest, and once it is closed it has read what there is to
read in the whole stream. -/
structure Follows (stream seen : Bytes) (session : Session) : Prop where
  reading : session.server.closed = false →
    requestFramer.Reads seen (dispatched session.trace) session.server.inBuffer ∧
      HttpRequest.parse session.server.inBuffer = .needMore ∧ rejected session.trace = [] ∧
      session.server.closeAfterFlush = false
  finished : session.server.closed = true →
    dispatched session.trace = (requestFramer.drain stream).messages ∧
      rejected session.trace = (requestFramer.drain stream).error.toList

theorem Follows.of_open {stream seen : Bytes} (hopen : session.server.closed = false)
    (hreads : requestFramer.Reads seen (dispatched session.trace) session.server.inBuffer)
    (hparse : HttpRequest.parse session.server.inBuffer = .needMore)
    (hrejected : rejected session.trace = [])
    (hundecided : session.server.closeAfterFlush = false) : session.Follows stream seen :=
  ⟨fun _ ↦ ⟨hreads, hparse, hrejected, hundecided⟩,
    fun hclosed ↦ absurd (hopen.symm.trans hclosed) (by simp)⟩

theorem Follows.of_closed {stream seen : Bytes} {error : Option ℕ}
    (hclosed : session.server.closed = true)
    (hdrain : requestFramer.drain stream = ⟨dispatched session.trace, error⟩)
    (hrejected : rejected session.trace = error.toList) : session.Follows stream seen := by
  refine ⟨fun hopen ↦ absurd (hclosed.symm.trans hopen) (by simp), fun _ ↦ ?_⟩
  rw [hdrain]
  exact ⟨rfl, hrejected⟩

/-- A call of `processRequests` with the flush behind it follows the stream, however it stops. -/
theorem Follows.flush {stream seen later rest : Bytes} {requests : List HttpRequest}
    {sends : ℕ → SysResult} (hpos : ∀ i, 0 < (sends i).ret) (hsteady : requestFramer.Steady stream)
    (hstream : stream = seen ++ later)
    (hall : requestFramer.Reads seen (dispatched session.trace ++ requests) rest)
    (hrejected : rejected session.trace = []) (hundecided : session.server.closeAfterFlush = false)
    (hopen : session'.server.closed = false) (hend : ProcessEnd session requests rest session')
    (hlimit : ∀ action ∈ session'.trace, action.isLimitWarning = false) :
    (session'.tryFlush sends).Follows stream seen := by
  have hserver := tryFlush_server_of_pos hpos session'
  obtain ⟨hdispatched', hrejected', -⟩ := tryFlush_input sends session'
  cases hend with
  | starved hparse hrest hdecided hd hr =>
    refine .of_open ?_ ?_ ?_ ?_ ?_
    · rw [hserver, hopen, hdecided, hundecided]
      rfl
    · rw [hdispatched', hd, hserver, hrest]
      exact hall
    · rw [hserver, hrest]
      exact hparse
    · rw [hrejected', hr, hrejected]
    · rw [hserver, hdecided, hundecided]
  | refused code hparse hdecided hd hr =>
    have hdrain := (hstream ▸ hsteady).drain_of_error hall hparse
    rw [← hstream, ← hd, ← hdispatched'] at hdrain
    refine .of_closed ?_ hdrain ?_
    · rw [hserver, hdecided, Bool.or_true]
    · rw [hrejected', hr, hrejected]
      rfl
  | last request consumed hparse hkeep hdecided hd hr =>
    have hdrain := (hall.append later).drain_of_final
      (HttpRequest.parse_append_of_ok hparse later) (by simp [requestFramer, hkeep])
    rw [← hstream, List.append_assoc, ← hd, ← hdispatched'] at hdrain
    refine .of_closed ?_ hdrain ?_
    · rw [hserver, hdecided, Bool.or_true]
    · rw [hrejected', hr, hrejected]
      rfl
  | full hdecided hwarning =>
    obtain ⟨action, hmem, hwarned⟩ := hwarning
    exact absurd ((hlimit action hmem).symm.trans hwarned) (by simp)

/-- A delivered chunk is read to the end of the stream or to the last complete request in it. -/
theorem Follows.step {stream seen later : Bytes} {event : Event} (h : session.Follows stream seen)
    (hsteady : requestFramer.Steady stream) (hevent : event.IsDelivery)
    (hstream : stream = seen ++ event.chunk ++ later)
    (hlimit : ∀ action ∈ (session.step event).trace, action.isLimitWarning = false) :
    (session.step event).Follows stream (seen ++ event.chunk) := by
  cases event with
  | write sends => exact absurd hevent id
  | close => exact absurd hevent id
  | read recvs envs sends =>
    obtain ⟨hpieces, hpos⟩ := hevent
    unfold Session.step at hlimit ⊢
    dsimp only at hlimit ⊢
    cases hopen : session.server.closed with
    | true =>
      rw [handleRead_of_closed envs sends hopen]
      exact ⟨fun hfalse ↦ absurd (hopen.symm.trans hfalse) (by simp), h.finished⟩
    | false =>
      obtain ⟨hreads, -, hrejected, hundecided⟩ := h.reading hopen
      have hscan : recvScan session.server.inBuffer.length recvs =
          (recvs.flatMap RecvResult.bytes, .drained) := by
        refine recvScan_of_delivery hpieces fun hover ↦ ?_
        rw [handleRead_of_not_drained envs sends hopen (by simp [hover])] at hlimit
        obtain ⟨action, hmem, hwarned⟩ := recvIntoBuffer_overflow session recvs hover
        exact absurd ((hlimit action hmem).symm.trans hwarned) (by simp)
      have hbuffer := recvIntoBuffer_server session recvs
      obtain ⟨hdispatched', hrejected'⟩ := recvIntoBuffer_input session recvs
      rw [hscan] at hbuffer
      rw [handleRead_of_drained envs sends hopen (by rw [hscan])] at hlimit ⊢
      obtain ⟨requests, rest, hmore, hend⟩ :=
        processRequests_reads envs (session.recvIntoBuffer recvs)
      -- everything read from the bytes seen so far
      have hall : requestFramer.Reads (seen ++ recvs.flatMap RecvResult.bytes)
          (dispatched (session.recvIntoBuffer recvs).trace ++ requests) rest := by
        rw [hbuffer] at hmore
        rw [hdispatched']
        exact (hreads.append _).trans hmore
      obtain ⟨calls, htrace, -⟩ := (tryFlush_flushed sends
        ((session.recvIntoBuffer recvs).processRequests envs)).calls
      refine .flush hpos hsteady hstream hall (hrejected'.trans hrejected) ?_ ?_ hend
        fun action hmem ↦ hlimit action (by rw [htrace]; exact List.mem_append_left _ hmem)
      · rw [hbuffer]
        exact hundecided
      · rw [processRequests_closed, hbuffer, hopen]
        rfl

theorem trace_prefix_run (session : Session) (events : List Event) :
    session.trace <+: (run step session events).trace := by
  induction events generalizing session with
  | nil => exact List.prefix_rfl
  | cons event events ih => exact (trace_prefix_step session event).trans (ih _)

theorem Follows.run {stream seen : Bytes} {events : List Event} (h : session.Follows stream seen)
    (hsteady : requestFramer.Steady stream) (hevents : ∀ event ∈ events, event.IsDelivery)
    (hstream : stream = seen ++ events.flatMap Event.chunk)
    (hlimit : ∀ action ∈ (run Session.step session events).trace,
      action.isLimitWarning = false) :
    (run Session.step session events).Follows stream stream := by
  induction events generalizing session seen with
  | nil =>
    have hseen : stream = seen := by simpa using hstream
    exact hseen ▸ h
  | cons event events ih =>
    rw [List.flatMap_cons, ← List.append_assoc] at hstream
    have hpre := trace_prefix_run (session.step event) events
    have hstep := h.step hsteady (hevents event List.mem_cons_self) hstream
      fun action hmem ↦ hlimit action (hpre.subset hmem)
    exact ih hstep (fun event hmem ↦ hevents event (List.mem_cons_of_mem _ hmem)) hstream hlimit

theorem follows_new (fd : ℕ) (clientIp : Bytes) (services : Services) (stream : Bytes) :
    (new fd clientIp services).Follows stream [] := by
  refine ⟨fun _ ↦ ⟨.refl [], ?_, rfl, rfl⟩, fun htrue ↦ absurd htrue (by simp [new, HttpServer.new])⟩
  exact (HttpRequest.parse_eq_of_no_blankLine rfl).trans (if_neg (Nat.not_lt_zero _))

/-- A delivered stream is read completely: the requests dispatched and the error answered are those
`requestFramer` finds in it. -/
theorem input_of_delivered {fd : ℕ} {clientIp : Bytes} {services : Services} {stream : Bytes}
    {events : List Event} (hdelivers : Delivers events stream) (hfits : HeadersFit stream)
    (hlimit : ∀ action ∈ (run step (new fd clientIp services) events).trace,
      action.isLimitWarning = false) :
    dispatched (run step (new fd clientIp services) events).trace =
        (requestFramer.drain stream).messages ∧
      rejected (run step (new fd clientIp services) events).trace =
        (requestFramer.drain stream).error.toList := by
  have hfollows := (follows_new fd clientIp services stream).run (steady_of_headersFit hfits)
    hdelivers.deliveries hdelivers.flatMap_chunk.symm hlimit
  cases hopen : (run step (new fd clientIp services) events).server.closed with
  | true => exact hfollows.finished hopen
  | false =>
    obtain ⟨hreads, hparse, hrejected, -⟩ := hfollows.reading hopen
    rw [hreads.drain_of_needMore hparse, hrejected]
    exact ⟨rfl, rfl⟩

/-- Two runs that receive the same stream in different chunks dispatch the same requests and refuse
the stream with the same code, and the loop of `processRequests` terminates in every state. -/
theorem fragmentation_independent (fd fd' : ℕ) (clientIp clientIp' : Bytes)
    (services services' : Services) (stream : Bytes) (events events' : List Event)
    (hdelivers : Delivers events stream) (hdelivers' : Delivers events' stream)
    (hfits : HeadersFit stream)
    (hlimit : ∀ action ∈ (run step (new fd clientIp services) events).trace,
      action.isLimitWarning = false)
    (hlimit' : ∀ action ∈ (run step (new fd' clientIp' services') events').trace,
      action.isLimitWarning = false) :
    dispatched (run step (new fd clientIp services) events).trace =
        dispatched (run step (new fd' clientIp' services') events').trace ∧
      rejected (run step (new fd clientIp services) events).trace =
        rejected (run step (new fd' clientIp' services') events').trace ∧
      ∀ session envs fuel, session.server.inBuffer.length < fuel →
        WhileLoop.iterate processLoop.body fuel (session, envs) =
          some (session.processRequests envs) := by
  obtain ⟨hdispatched, hrejected⟩ := input_of_delivered hdelivers hfits hlimit
  obtain ⟨hdispatched', hrejected'⟩ := input_of_delivered hdelivers' hfits hlimit'
  refine ⟨hdispatched.trans hdispatched'.symm, hrejected.trans hrejected'.symm, ?_⟩
  intro session envs fuel hfuel
  exact processLoop.iterate_eq_run fuel (session, envs) hfuel

/-- A read event with one piece of data from a peer that takes all output. -/
def pieceRead (data : Bytes) : Event :=
  .read [.received data] (fun _ ↦ ⟨id, 0, 0, fun _ ↦ none⟩) (fun _ ↦ ⟨65536, 0⟩)

theorem delivers_pieceRead {pieces : List Bytes} {stream : Bytes}
    (hpieces : ∀ data ∈ pieces, data ≠ []) (hstream : pieces.flatten = stream) :
    Delivers (pieces.map pieceRead) stream := by
  subst hstream
  refine ⟨?_, by simp [List.flatMap_map, Event.chunk, pieceRead, RecvResult.bytes, List.flatMap_id']⟩
  intro event hmem
  obtain ⟨data, hdata, rfl⟩ := List.mem_map.mp hmem
  refine ⟨?_, fun _ ↦ Int.ofNat_lt.mpr (by decide : 0 < 65536)⟩
  intro result hresult
  exact ⟨data, hpieces data hdata, List.mem_singleton.mp hresult⟩

/-- A pipeline of two requests, cut inside the first blank line and inside the second method. -/
theorem fragmentation_independent_pipeline :
    dispatched (run step (new 7 (lit "10.0.0.1") ⟨⟨∅⟩, .new, .static⟩)
        ([lit "GET / HTTP/1.1\r\n\r\nGET /hello HTTP/1.1\r\n\r\n"].map pieceRead)).trace =
      dispatched (run step (new 8 (lit "10.0.0.2") ⟨⟨∅⟩, .new, .static⟩)
        ([lit "GET / HTTP/1.1\r\n\r", lit "\nGE",
          lit "T /hello HTTP/1.1\r\n\r\n"].map pieceRead)).trace :=
  (fragmentation_independent 7 8 (lit "10.0.0.1") (lit "10.0.0.2") ⟨⟨∅⟩, .new, .static⟩
    ⟨⟨∅⟩, .new, .static⟩ (lit "GET / HTTP/1.1\r\n\r\nGET /hello HTTP/1.1\r\n\r\n") _ _
    (delivers_pieceRead (by decide) (by decide))
    (delivers_pieceRead (by decide) (by decide))
    (headersFit_of_length_le (by decide +kernel)) (by decide +kernel) (by decide +kernel)).1

end Session

end WebServer
