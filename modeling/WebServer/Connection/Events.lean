import WebServer.Connection.Answer

/-!
# Events on a connection

A read event receives until the socket is drained, processes the complete requests in the buffer and
flushes the output; a write event flushes. The nested loops of the source's `tryFlush` are one loop
here, whose turns are the tests of the inner loops: a turn makes one `send` or `sendfile` call, or
removes a finished segment from the front of the queue.
-/

namespace WebServer

open Bytes HttpServer OutSegment

namespace Session

/-! ## Processing -/

theorem inBuffer_length_lt_of_processTurn {env : Env} {session next : Session}
    (h : processTurn env session = .next next) :
    next.server.inBuffer.length < session.server.inBuffer.length := by
  have hturned := processTurn_turned env session
  rw [h] at hturned
  cases hturned with
  | @next request consumed hparse =>
    obtain ⟨hfour, hle⟩ := HttpRequest.parse_consumed_bounds hparse
    simp only [afterRequest, answerWith, consume_server, List.length_drop, emit_server,
      adoptKeepAlive_server]
    omega

/-- The loop of `processRequests`; every turn meets its own environment. -/
def processLoop : WhileLoop (Session × (ℕ → Env)) Session where
  body state :=
    match processTurn (state.2 0) state.1 with
    | .next session => .next (session, fun i ↦ state.2 (i + 1))
    | .exit session => .exit session
  measure state := state.1.server.inBuffer.length
  decreases state state' h := by
    split at h
    · rename_i session hturn
      obtain rfl := Turn.next.inj h
      exact inBuffer_length_lt_of_processTurn hturn
    · exact absurd h (by simp)

theorem processTurn_of_exit {session result : Session} {envs : ℕ → Env}
    (h : processLoop.body (session, envs) = .exit result) :
    processTurn (envs 0) session = .exit result := by
  dsimp only [processLoop] at h
  split at h
  · exact absurd h (by simp)
  · rename_i hturn
    rw [hturn, Turn.exit.inj h]

theorem processTurn_of_next {session : Session} {envs : ℕ → Env} {next : Session × (ℕ → Env)}
    (h : processLoop.body (session, envs) = .next next) :
    processTurn (envs 0) session = .next next.1 := by
  dsimp only [processLoop] at h
  split at h
  · rename_i hturn
    rw [hturn, ← Turn.next.inj h]
  · exact absurd h (by simp)

def processRequests (envs : ℕ → Env) (session : Session) : Session :=
  processLoop.run (session, envs)

/-! ## Flushing -/

/-- The interest mask while output is pending, and after it has been sent. -/
def interest (writable : Bool) : EpollEvents where
  epollin := true
  epollout := writable
  epollrdhup := false
  epollerr := false
  epollhup := false
  epollet := true

def registerWrite (session : Session) : Session :=
  if session.server.writeRegistered then session
  else
    (session.setServer { session.server with writeRegistered := true }).emit
      (.updateEvents (interest true))

@[simp] theorem registerWrite_server (session : Session) :
    session.registerWrite.server = { session.server with writeRegistered := true } := by
  obtain ⟨⟨fd, clientIp, inBuffer, outQueue, registered, keepAlive, closing, closed⟩, services,
    trace⟩ := session
  cases registered <;> rfl

def unregisterWrite (session : Session) : Session :=
  if session.server.writeRegistered then
    (session.setServer { session.server with writeRegistered := false }).emit
      (.updateEvents (interest false))
  else session

@[simp] theorem unregisterWrite_server (session : Session) :
    session.unregisterWrite.server = { session.server with writeRegistered := false } := by
  obtain ⟨⟨fd, clientIp, inBuffer, outQueue, registered, keepAlive, closing, closed⟩, services,
    trace⟩ := session
  cases registered <;> rfl

def setQueue (session : Session) (queue : List OutSegment) : Session :=
  session.setServer { session.server with outQueue := queue }

/-- What follows a call that moved no bytes: wait for the socket, or close the connection. -/
def stopSending (session : Session) (call : Bytes) (result : SysResult) : Session :=
  if result.wouldBlock then session.registerWrite
  else
    (session.log .warning (call ++ lit " 错误 fd: " ++ session.fdText ++ lit " errno: " ++
      decimal result.errno)).closeConnection

/-- What follows the loop: everything has been sent. -/
def finishFlush (session : Session) : Session :=
  let session := if session.server.writeRegistered then session.unregisterWrite else session
  if session.server.closeAfterFlush then session.closeConnection else session

/-- Unregistering does nothing where nothing is registered, so the source's test of it is no case. -/
theorem finishFlush_eq (session : Session) : session.finishFlush =
    if session.server.closeAfterFlush then session.unregisterWrite.closeConnection
    else session.unregisterWrite := by
  have hsame : (if session.server.writeRegistered then session.unregisterWrite else session) =
      session.unregisterWrite := by
    unfold unregisterWrite
    split <;> rfl
  unfold finishFlush
  dsimp only
  rw [hsame, unregisterWrite_server]

/-- After a complete flush the connection waits for input only, and is closed if that was decided. -/
theorem finishFlush_server (session : Session) : session.finishFlush.server =
    { session.server with
      writeRegistered := false
      closed := session.server.closed || session.server.closeAfterFlush } := by
  rw [finishFlush_eq]
  cases hclosing : session.server.closeAfterFlush <;> simp

/-- A turn of `tryFlush`; the state holds the results of the calls that are still to be made. -/
def flushTurn (state : Session × (ℕ → SysResult)) : Turn (Session × (ℕ → SysResult)) Session :=
  let session := state.1
  let result := state.2 0
  let later := fun i ↦ state.2 (i + 1)
  match session.server.outQueue with
  | [] => .exit session.finishFlush
  | .bytes text :: queue =>
    if text = [] then .next (session.setQueue queue, state.2)
    else if 0 < result.ret then
      let n := result.count text.length
      .next ((session.setQueue (.bytes (text.drop n) :: queue)).emit
        (.send result (text.take n)), later)
    else .exit ((session.emit (.send result [])).stopSending (lit "send") result)
  | .file fileFd content fileOffset fileRemaining :: queue =>
    if fileRemaining = 0 then .next ((session.setQueue queue).emit (.closeFile fileFd), state.2)
    else if 0 < result.ret then
      let n := result.count fileRemaining
      .next ((session.setQueue
          (.file fileFd content (fileOffset + n) (fileRemaining - n) :: queue)).emit
        (.sendfile result fileFd (fileBytes content fileOffset n)), later)
    else .exit ((session.emit (.sendfile result fileFd [])).stopSending (lit "sendfile") result)

/-- The bytes and segments a queue still holds. -/
def queueWeight (queue : List OutSegment) : ℕ := (queue.map fun segment ↦ segment.remaining + 1).sum

/-- What a further turn of the flush did: it removed a finished segment or moved bytes of the first
one. -/
inductive FlushStep : Session → Session → Prop where
  | popBytes {session : Session} {queue : List OutSegment}
      (hqueue : session.server.outQueue = .bytes [] :: queue) :
      FlushStep session (session.setQueue queue)
  | send {session : Session} {queue : List OutSegment} {text : Bytes} (result : SysResult) (n : ℕ)
      (hqueue : session.server.outQueue = .bytes text :: queue) (hpos : 0 < n)
      (hle : n ≤ text.length) (hret : 0 < result.ret) :
      FlushStep session ((session.setQueue (.bytes (text.drop n) :: queue)).emit
        (.send result (text.take n)))
  | popFile {session : Session} {queue : List OutSegment} {fileFd fileOffset : ℕ}
      {content : ℕ → Byte}
      (hqueue : session.server.outQueue = .file fileFd content fileOffset 0 :: queue) :
      FlushStep session ((session.setQueue queue).emit (.closeFile fileFd))
  | sendfile {session : Session} {queue : List OutSegment} {fileFd fileOffset fileRemaining : ℕ}
      {content : ℕ → Byte} (result : SysResult) (n : ℕ)
      (hqueue : session.server.outQueue =
        .file fileFd content fileOffset fileRemaining :: queue) (hpos : 0 < n)
      (hle : n ≤ fileRemaining) (hret : 0 < result.ret) :
      FlushStep session ((session.setQueue
          (.file fileFd content (fileOffset + n) (fileRemaining - n) :: queue)).emit
        (.sendfile result fileFd (fileBytes content fileOffset n)))

/-- A socket call that moved no bytes. -/
def IsIdleCall (result : SysResult) (action : Action) : Prop :=
  action = .send result [] ∨ ∃ fileFd, action = .sendfile result fileFd []

/-- How a flush ends: with nothing left to send, with a call that would block, or with an error. -/
inductive FlushEnd : Session → Session → Prop where
  | drained {session : Session} (hqueue : session.server.outQueue = []) :
      FlushEnd session session.finishFlush
  | blocked {session : Session} (result : SysResult) (action : Action)
      (hqueue : session.server.outQueue ≠ []) (hcall : IsIdleCall result action)
      (hblock : result.wouldBlock = true) :
      FlushEnd session (session.emit action).registerWrite
  | failed {session : Session} (result : SysResult) (action : Action) (message : Bytes)
      (hqueue : session.server.outQueue ≠ []) (hcall : IsIdleCall result action)
      (hret : result.ret ≤ 0) (hblock : result.wouldBlock = false) :
      FlushEnd session ((session.emit action).log .warning message).closeConnection

theorem stopSending_flushEnd {session : Session} {result : SysResult} {action : Action}
    (call : Bytes) (hqueue : session.server.outQueue ≠ []) (hcall : IsIdleCall result action)
    (hret : ¬ 0 < result.ret) :
    FlushEnd session ((session.emit action).stopSending call result) := by
  unfold stopSending
  cases hblock : result.wouldBlock with
  | true => exact .blocked result action hqueue hcall hblock
  | false => exact .failed result action _ hqueue hcall (by omega) hblock

/-- Everything a turn of the flush can do. -/
theorem flushTurn_cases (state : Session × (ℕ → SysResult)) :
    (∃ state', flushTurn state = .next state' ∧ FlushStep state.1 state'.1 ∧
      (state'.2 = state.2 ∨ state'.2 = fun i ↦ state.2 (i + 1))) ∨
    ∃ session, flushTurn state = .exit session ∧ FlushEnd state.1 session := by
  obtain ⟨session, results⟩ := state
  unfold flushTurn
  dsimp only
  cases hqueue : session.server.outQueue with
  | nil => exact .inr ⟨_, rfl, .drained hqueue⟩
  | cons segment queue =>
    cases segment with
    | bytes text =>
      by_cases htext : text = []
      · subst htext
        exact .inl ⟨_, rfl, .popBytes hqueue, .inl rfl⟩
      · simp only [if_neg htext]
        split
        · rename_i hret
          exact .inl ⟨_, rfl, .send (results 0) _ hqueue
            (SysResult.count_pos hret (List.length_pos_iff.mpr htext)) (SysResult.count_le ..)
            hret, .inr rfl⟩
        · rename_i hret
          exact .inr ⟨_, rfl, stopSending_flushEnd _ (by simp [hqueue]) (.inl rfl) hret⟩
    | file fileFd content fileOffset fileRemaining =>
      by_cases hrem : fileRemaining = 0
      · subst hrem
        exact .inl ⟨_, rfl, .popFile hqueue, .inl rfl⟩
      · simp only [if_neg hrem]
        split
        · rename_i hret
          exact .inl ⟨_, rfl, .sendfile (results 0) _ hqueue
            (SysResult.count_pos hret (Nat.pos_of_ne_zero hrem)) (SysResult.count_le ..)
            hret, .inr rfl⟩
        · rename_i hret
          exact .inr ⟨_, rfl, stopSending_flushEnd _ (by simp [hqueue]) (.inr ⟨_, rfl⟩) hret⟩

theorem flushTurn_of_next {state state' : Session × (ℕ → SysResult)}
    (h : flushTurn state = .next state') :
    FlushStep state.1 state'.1 ∧
      (state'.2 = state.2 ∨ state'.2 = fun i ↦ state.2 (i + 1)) := by
  rcases flushTurn_cases state with ⟨next, hnext, hstep⟩ | ⟨session, hexit, -⟩
  · obtain rfl := Turn.next.inj (hnext.symm.trans h)
    exact hstep
  · exact absurd (hexit.symm.trans h) (by simp)

theorem flushTurn_of_exit {state : Session × (ℕ → SysResult)} {session' : Session}
    (h : flushTurn state = .exit session') : FlushEnd state.1 session' := by
  rcases flushTurn_cases state with ⟨next, hnext, -⟩ | ⟨session, hexit, hend⟩
  · exact absurd (hnext.symm.trans h) (by simp)
  · obtain rfl := Turn.exit.inj (hexit.symm.trans h)
    exact hend

theorem FlushStep.queueWeight_lt {session session' : Session} (h : FlushStep session session') :
    queueWeight session'.server.outQueue < queueWeight session.server.outQueue := by
  cases h with
  | popBytes hqueue => simp [queueWeight, setQueue, hqueue]
  | send result n hqueue hpos hle =>
    simp only [queueWeight, setQueue, hqueue, remaining, emit_server, setServer_server,
      List.map_cons, List.sum_cons, List.length_drop]
    omega
  | popFile hqueue => simp [queueWeight, setQueue, hqueue]
  | sendfile result n hqueue hpos hle =>
    simp only [queueWeight, setQueue, hqueue, remaining, emit_server, setServer_server,
      List.map_cons, List.sum_cons]
    omega

/-- The loops of `tryFlush`. -/
def flushLoop : WhileLoop (Session × (ℕ → SysResult)) Session where
  body := flushTurn
  measure state := queueWeight state.1.server.outQueue
  decreases _ _ h := (flushTurn_of_next h).1.queueWeight_lt

def tryFlush (results : ℕ → SysResult) (session : Session) : Session :=
  flushLoop.run (session, results)

/-- Induction along a flush: its end, and each turn before it. -/
theorem tryFlush_induct {motive : Session → Session → Prop}
    (hend : ∀ session session', FlushEnd session session' → motive session session')
    (hstep : ∀ session next session', FlushStep session next → motive next session' →
      motive session session')
    (results : ℕ → SysResult) (session : Session) : motive session (tryFlush results session) := by
  refine flushLoop.run_induct (motive := fun state result ↦ motive state.1 result) ?_ ?_
    (session, results)
  · intro state result hbody
    exact hend _ _ (flushTurn_of_exit hbody)
  · intro state state' result hbody hresult
    exact hstep _ _ _ (flushTurn_of_next hbody).1 hresult

/-! ## Handlers -/

def handleRead (recvs : List RecvResult) (envs : ℕ → Env) (sends : ℕ → SysResult)
    (session : Session) : Session :=
  if session.server.closed then session
  else
    let session := session.recvIntoBuffer recvs
    if session.server.closed then session
    else
      let session := session.processRequests envs
      if session.server.closed then session else session.tryFlush sends

def handleWrite (sends : ℕ → SysResult) (session : Session) : Session :=
  if session.server.closed then session else session.tryFlush sends

end Session

/-- What can happen to a connection: input, room for output, or a close from the event loop. -/
inductive Event where
  | read (recvs : List RecvResult) (envs : ℕ → Env) (sends : ℕ → SysResult)
  | write (sends : ℕ → SysResult)
  | close

namespace Session

def step (session : Session) : Event → Session
  | .read recvs envs sends => session.handleRead recvs envs sends
  | .write sends => session.handleWrite sends
  | .close => if session.server.closed then session else session.closeConnection

/-- What the destructor does: close the files that are still queued. -/
def closeAllFiles (session : Session) : Session :=
  session.server.outQueue.foldl (fun session segment ↦
    match segment with
    | .file fileFd _ _ _ => session.emit (.closeFile fileFd)
    | .bytes _ => session) session

def new (fd : ℕ) (clientIp : Bytes) (services : Services) : Session where
  server := HttpServer.new fd clientIp
  services := services
  trace := []

end Session

end WebServer
