import WebServer.Connection.Input
import WebServer.Foundation.ServedMap

/-!
# Many connections

The process has any number of connections, each on the loop of its thread, and one set of services that
all handlers use. A read event is not atomic: between its receive loop, the turns of `processRequests`
and its flush, the other connections go on. A turn is one move, because all it shares with other
threads is the one call on the services its handler makes under a lock. The history lists the
dispatched requests of all connections in the order of these calls.
-/

namespace WebServer

open Execution

/-- Where a connection is in the handling of its read event. -/
inductive Phase where
  | idle
  | processing
  | flushing
  deriving DecidableEq

structure Connection where
  server : HttpServer
  trace : List Action
  phase : Phase

structure Cluster (ι : Type*) where
  services : Services
  connection : ι → Connection
  history : List (ι × HttpRequest)

/-- What a turn meets outside the process. -/
structure TurnEnv where
  now : Time
  cleanupNow : Time
  openFile : Bytes → Option OpenedFile

/-- The services a turn meets are those the process has then. -/
def TurnEnv.toEnv (env : TurnEnv) : Env where
  others := id
  now := env.now
  cleanupNow := env.cleanupNow
  openFile := env.openFile

inductive Move (ι : Type*) where
  | receive (client : ι) (recvs : List RecvResult)
  | turn (client : ι) (env : TurnEnv)
  | flush (client : ι) (sends : ℕ → SysResult)
  | write (client : ι) (sends : ℕ → SysResult)
  | close (client : ι)

namespace Cluster

variable {ι : Type*} [DecidableEq ι]

/-- A process that has just accepted its connections. -/
def new (services : Services) (fds : ι → ℕ) (clientIps : ι → Bytes) : Cluster ι where
  services := services
  connection client := ⟨HttpServer.new (fds client) (clientIps client), [], .idle⟩
  history := []

variable (cluster : Cluster ι) (client : ι)

/-- A connection with the services of the process. -/
def session : Session where
  server := (cluster.connection client).server
  services := cluster.services
  trace := (cluster.connection client).trace

/-- Store a connection, in its new phase, and the services it leaves. -/
def put (session : Session) (phase : Phase) : Cluster ι :=
  { cluster with
    services := session.services
    connection :=
      Function.update cluster.connection client ⟨session.server, session.trace, phase⟩ }

/-- The request the next turn of a connection dispatches. -/
def nextRequest : List (ι × HttpRequest) :=
  match HttpRequest.parse (cluster.connection client).server.inBuffer with
  | .ok request _ => [(client, request)]
  | _ => []

def record : Cluster ι :=
  { cluster with history := cluster.history ++ cluster.nextRequest client }

/-- The start of `handleRead`. -/
def receive (recvs : List RecvResult) : Cluster ι :=
  if (cluster.connection client).server.closed then cluster
  else
    let session := (cluster.session client).recvIntoBuffer recvs
    cluster.put client session (if session.server.closed then .idle else .processing)

/-- A turn of `processRequests`. -/
def turn (env : TurnEnv) : Cluster ι :=
  match Session.processTurn env.toEnv (cluster.session client) with
  | .next session => (cluster.record client).put client session .processing
  | .exit session => (cluster.record client).put client session .flushing

/-- A move of a connection that is not in the phase for it does nothing. -/
def step : Move ι → Cluster ι
  | .receive client recvs =>
    if (cluster.connection client).phase = .idle then cluster.receive client recvs else cluster
  | .turn client env =>
    if (cluster.connection client).phase = .processing then cluster.turn client env else cluster
  | .flush client sends =>
    if (cluster.connection client).phase = .flushing then
      cluster.put client ((cluster.session client).handleWrite sends) .idle
    else cluster
  | .write client sends =>
    if (cluster.connection client).phase = .idle then
      cluster.put client ((cluster.session client).handleWrite sends) .idle
    else cluster
  | .close client =>
    if (cluster.connection client).phase = .idle then
      cluster.put client ((cluster.session client).step .close) .idle
    else cluster

/-! ## Fields -/

variable {cluster client} {other : ι} (session : Session) (phase : Phase)

@[simp]
theorem put_services : (cluster.put client session phase).services = session.services := rfl

@[simp]
theorem put_history : (cluster.put client session phase).history = cluster.history := rfl

@[simp]
theorem put_connection_self : (cluster.put client session phase).connection client =
    ⟨session.server, session.trace, phase⟩ := Function.update_self ..

theorem put_connection_of_ne (h : other ≠ client) :
    (cluster.put client session phase).connection other = cluster.connection other :=
  Function.update_of_ne h ..

theorem connection_turn_of_ne (env : TurnEnv) (h : other ≠ client) :
    (cluster.step (.turn client env)).connection other = cluster.connection other := by
  unfold Cluster.step Cluster.turn
  dsimp only
  split
  · split
    · exact put_connection_of_ne _ _ h
    · exact put_connection_of_ne _ _ h
  · rfl

@[simp]
theorem session_put : (cluster.put client session phase).session client = session := by
  simp [Cluster.session]

/-! ## Moves -/

/-- What a move does: nothing, or what its connection is ready for. -/
inductive Acts (cluster : Cluster ι) : Move ι → Cluster ι → Prop where
  | skip (move : Move ι) : Acts cluster move cluster
  | receive {client : ι} {recvs : List RecvResult}
      (hidle : (cluster.connection client).phase = .idle)
      (hopen : (cluster.connection client).server.closed = false) :
      Acts cluster (.receive client recvs) (cluster.put client
        ((cluster.session client).recvIntoBuffer recvs)
        (if ((cluster.session client).recvIntoBuffer recvs).server.closed then .idle
        else .processing))
  | turn {client : ι} {env : TurnEnv}
      (hprocessing : (cluster.connection client).phase = .processing) :
      Acts cluster (.turn client env) (cluster.turn client env)
  | write {client : ι} {sends : ℕ → SysResult} {move : Move ι}
      (hmove : move = .flush client sends ∨ move = .write client sends)
      (hphase : (cluster.connection client).phase ≠ .processing) :
      Acts cluster move (cluster.put client ((cluster.session client).handleWrite sends) .idle)
  | close {client : ι} (hidle : (cluster.connection client).phase = .idle) :
      Acts cluster (.close client)
        (cluster.put client ((cluster.session client).step .close) .idle)

theorem acts_step (cluster : Cluster ι) (move : Move ι) :
    Acts cluster move (cluster.step move) := by
  unfold Cluster.step
  cases move with
  | receive client recvs =>
    dsimp only
    split
    · rename_i hidle
      unfold Cluster.receive
      split
      · exact .skip _
      · rename_i hopen
        exact .receive hidle (by simpa using hopen)
    · exact .skip _
  | turn client env =>
    dsimp only
    split
    · rename_i hprocessing
      exact .turn hprocessing
    · exact .skip _
  | flush client sends =>
    dsimp only
    split
    · rename_i hflushing
      exact .write (.inl rfl) (by simp [hflushing])
    · exact .skip _
  | write client sends =>
    dsimp only
    split
    · rename_i hidle
      exact .write (.inr rfl) (by simp [hidle])
    · exact .skip _
  | close client =>
    dsimp only
    split
    · rename_i hidle
      exact .close hidle
    · exact .skip _

/-! ## The history -/

theorem dispatched_processTurn {env : Env} {session session' : Session}
    (h : Session.processTurn env session = .next session' ∨
      Session.processTurn env session = .exit session') :
    dispatched session'.trace = dispatched session.trace ++
      match HttpRequest.parse session.server.inBuffer with
      | .ok request _ => [request]
      | _ => [] := by
  have hturned := Session.processTurn_turned env session
  generalize Session.processTurn env session = turned at h hturned
  cases hturned with
  | starved hparse =>
    obtain rfl : session = session' := by simpa using h
    simp [hparse]
  | @refused errorCode hparse =>
    obtain rfl : session.reject errorCode = session' := by simpa using h
    simp [hparse, Session.reject_eq, dispatched, Action.dispatchedRequest]
  | @last request consumed hparse | @next request consumed hparse =>
    obtain rfl : session.afterRequest env request consumed = session' := by simpa using h
    rw [hparse]
    exact (Session.afterRequest_input session env request consumed).1
  | @full request consumed hparse =>
    obtain rfl : (session.afterRequest env request consumed).outQueueExceeded = session' := by
      simpa using h
    obtain ⟨message, htrace⟩ :=
      Session.outQueueExceeded_trace (session.afterRequest env request consumed)
    rw [hparse, htrace, dispatched_append,
      (Session.afterRequest_input session env request consumed).1]
    exact List.append_nil _

/-- The part of each connection in the history is what the connection dispatched. -/
def Recorded (cluster : Cluster ι) : Prop :=
  ∀ client, dispatched (cluster.connection client).trace = partOf client cluster.history

theorem partOf_nextRequest :
    partOf other (cluster.nextRequest client) =
      if other = client then
        match HttpRequest.parse (cluster.connection client).server.inBuffer with
        | .ok request _ => [request]
        | _ => []
      else [] := by
  unfold nextRequest
  cases HttpRequest.parse (cluster.connection client).server.inBuffer with
  | needMore | error => simp [partOf]
  | ok request consumed =>
    by_cases hsame : other = client
    · subst hsame
      simp
    · rw [if_neg hsame]
      exact partOf_singleton_of_ne (Ne.symm hsame) request

theorem Recorded.put (h : cluster.Recorded)
    (hsame : dispatched session.trace = dispatched (cluster.connection client).trace) :
    (cluster.put client session phase).Recorded := by
  intro other
  by_cases hother : other = client
  · subst hother
    rw [put_connection_self, put_history]
    exact hsame.trans (h other)
  · rw [put_connection_of_ne _ _ hother, put_history]
    exact h other

theorem Recorded.turn (h : cluster.Recorded) (env : TurnEnv) : (cluster.turn client env).Recorded := by
  have hput {session : Session} (phase : Phase)
      (hturn : Session.processTurn env.toEnv (cluster.session client) = .next session ∨
        Session.processTurn env.toEnv (cluster.session client) = .exit session) :
      ((cluster.record client).put client session phase).Recorded := by
    intro other
    have hhistory : partOf other (cluster.record client).history =
        partOf other cluster.history ++ partOf other (cluster.nextRequest client) :=
      partOf_append ..
    rw [put_history, hhistory, partOf_nextRequest]
    by_cases hother : other = client
    · subst hother
      rw [put_connection_self, if_pos rfl, ← h other]
      exact dispatched_processTurn hturn
    · rw [put_connection_of_ne _ _ hother, if_neg hother, List.append_nil]
      exact h other
  unfold Cluster.turn
  cases hturn : Session.processTurn env.toEnv (cluster.session client) with
  | next session => exact hput .processing (.inl hturn)
  | exit session => exact hput .flushing (.inr hturn)

theorem Recorded.step (h : cluster.Recorded) (move : Move ι) : (cluster.step move).Recorded := by
  have hacts := acts_step cluster move
  generalize cluster.step move = next at hacts ⊢
  cases hacts with
  | skip => exact h
  | @receive client recvs =>
    exact h.put _ _ (Session.recvIntoBuffer_input (cluster.session client) recvs).1
  | @turn client env => exact h.turn env
  | @write client sends =>
    refine h.put _ _ ?_
    unfold Session.handleWrite
    split
    · rfl
    · exact (Session.tryFlush_input sends (cluster.session client)).1
  | @close client =>
    refine h.put _ _ ?_
    unfold Session.step
    dsimp only
    split
    · rfl
    · rw [Session.closeConnection_trace, dispatched_append]
      exact List.append_nil _

/-- In every run the history merges what the connections dispatched. -/
theorem recorded_run (services : Services) (fds : ι → ℕ) (clientIps : ι → Bytes)
    (moves : List (Move ι)) : (run step (new services fds clientIps) moves).Recorded := by
  have hnew : (new services fds clientIps).Recorded := fun _ ↦ rfl
  exact run_invariant_of_forall (fun _ move h ↦ h.step move) hnew moves

/-! ## Undisturbed read events -/

def turns (client : ι) (envs : ℕ → TurnEnv) (count : ℕ) : List (Move ι) :=
  (List.range count).map fun i ↦ .turn client (envs i)

omit [DecidableEq ι] in
theorem turns_succ (envs : ℕ → TurnEnv) (count : ℕ) :
    turns client envs (count + 1) =
      .turn client (envs 0) :: turns client (fun i ↦ envs (i + 1)) count := by
  simp [turns, List.range_succ_eq_map, Function.comp_def]

theorem run_turns_of_ne (hphase : (cluster.connection client).phase ≠ .processing)
    (envs : ℕ → TurnEnv) (count : ℕ) : run step cluster (turns client envs count) = cluster := by
  induction count generalizing envs with
  | zero => rfl
  | succ count ih =>
    have hsame : cluster.step (.turn client (envs 0)) = cluster := if_neg hphase
    rw [turns_succ, run_cons, hsame]
    exact ih fun i ↦ envs (i + 1)

/-- Turns without moves of other connections in between are the loop of `processRequests`. -/
theorem run_turns {count : ℕ} {envs : ℕ → TurnEnv} {result : Session}
    (hphase : (cluster.connection client).phase = .processing)
    (hresult : WhileLoop.iterate Session.processLoop.body count
      (cluster.session client, fun i ↦ (envs i).toEnv) = some result) :
    (run step cluster (turns client envs count)).session client = result ∧
      ((run step cluster (turns client envs count)).connection client).phase = .flushing := by
  induction count generalizing cluster envs with
  | zero => exact absurd hresult (by simp [WhileLoop.iterate])
  | succ count ih =>
    have hturn : cluster.step (.turn client (envs 0)) = cluster.turn client (envs 0) := if_pos hphase
    rw [turns_succ, run_cons, hturn]
    unfold WhileLoop.iterate at hresult
    unfold Cluster.turn
    simp only [Session.processLoop] at hresult
    cases hbody : Session.processTurn (envs 0).toEnv (cluster.session client) with
    | next session =>
      rw [hbody] at hresult
      refine ih (by simp) ?_
      rw [session_put]
      exact hresult
    | exit session =>
      rw [hbody] at hresult
      obtain rfl := Option.some.inj hresult
      dsimp only
      rw [run_turns_of_ne (by simp)]
      simp

/-- The moves of a read event with the given number of turns. -/
def readMoves (client : ι) (recvs : List RecvResult) (envs : ℕ → TurnEnv) (count : ℕ)
    (sends : ℕ → SysResult) : List (Move ι) :=
  .receive client recvs :: (turns client envs count ++ [.flush client sends])

/-- A read event that no other connection interrupts is the read event of the connection alone. -/
theorem run_readMoves (hidle : (cluster.connection client).phase = .idle) (recvs : List RecvResult)
    (envs : ℕ → TurnEnv) (sends : ℕ → SysResult) {count : ℕ}
    (hcount : ((cluster.session client).recvIntoBuffer recvs).server.inBuffer.length < count) :
    (run step cluster (readMoves client recvs envs count sends)).session client =
      (cluster.session client).handleRead recvs (fun i ↦ (envs i).toEnv) sends := by
  have hreceive : cluster.step (.receive client recvs) = cluster.receive client recvs :=
    if_pos hidle
  have hstay {cluster : Cluster ι} (hidle : (cluster.connection client).phase = .idle) :
      run step cluster (turns client envs count ++ [.flush client sends]) = cluster := by
    rw [run_append, run_turns_of_ne (by simp [hidle])]
    exact if_neg (by simp [hidle])
  rw [readMoves, run_cons, hreceive]
  unfold receive Session.handleRead
  have hserver : (cluster.session client).server = (cluster.connection client).server := rfl
  rw [hserver]
  by_cases hclosed : (cluster.connection client).server.closed = true
  · rw [if_pos hclosed, if_pos hclosed, hstay hidle]
  rw [if_neg hclosed, if_neg hclosed]
  dsimp only
  by_cases hshut : ((cluster.session client).recvIntoBuffer recvs).server.closed = true
  · rw [if_pos hshut, if_pos hshut, hstay (by simp), session_put]
  rw [if_neg hshut, if_neg hshut, run_append]
  generalize (cluster.session client).recvIntoBuffer recvs = received at hcount hshut ⊢
  have hphase : ((cluster.put client received .processing).connection client).phase =
      .processing := by simp
  have hloop : WhileLoop.iterate Session.processLoop.body count
      ((cluster.put client received .processing).session client, fun i ↦ (envs i).toEnv) =
        some (received.processRequests fun i ↦ (envs i).toEnv) := by
    rw [session_put]
    exact Session.processLoop.iterate_eq_run count _ hcount
  obtain ⟨hsession, hflushing⟩ := run_turns hphase hloop
  generalize run step (cluster.put client received .processing) (turns client envs count) =
    processed at hsession hflushing ⊢
  have hflush : processed.step (.flush client sends) =
      processed.put client ((processed.session client).handleWrite sends) .idle := if_pos hflushing
  rw [run_cons, run_nil, hflush, session_put, hsession]
  rfl

end Cluster

end WebServer
