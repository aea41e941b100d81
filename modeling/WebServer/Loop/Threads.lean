import WebServer.Connection.Cluster
import WebServer.Loop.Projection

/-!
# The threads of the server

Every loop has a thread of its own, and all threads use one set of services. A thread handles one event
after the other, but between its receive loop, the turns of `processRequests` and its flush the other
threads go on; a turn is one move, because all it shares with them is the one call on the services that
its handler makes under a lock.

In such a run every loop does what it does in a run of its own, in which the handlers are atomic and the
environments of their turns say what the other threads have done to the services.
-/

namespace WebServer

open Bytes Execution

/-- An entry of `epoll_wait` for a connection, with the results of the calls made for it; what the turns
meet is not known yet. -/
structure Report where
  now : Time
  fd : ℕ
  events : EpollEvents
  recvs : List RecvResult
  sends : ℕ → SysResult
  writeSends : ℕ → SysResult

def Report.readiness (report : Report) (envs : ℕ → Env) : Readiness where
  now := report.now
  fd := report.fd
  events := report.events
  recvs := report.recvs
  envs := envs
  sends := report.sends
  writeSends := report.writeSends

/-- Where the handling of an event is: in `processRequests`, before the flush of `handleRead`, or behind
`handleRead`. -/
inductive Position where
  | processing
  | flushing
  | writing
  deriving DecidableEq

/-- An event that is being handled, for an entry of `_clients`. -/
structure Handling where
  report : Report
  client : Client
  session : Session
  position : Position

namespace Handling

/-- The start of `handleRead`, if there is anything to read. -/
def start (report : Report) (client : Client) (services : Services) : Handling :=
  let session : Session := ⟨client.server, services, []⟩
  if report.events.epollin ∨ report.events.epollrdhup then
    if client.server.closed then ⟨report, client, session, .writing⟩
    else
      let session := session.recvIntoBuffer report.recvs
      ⟨report, client, session, if session.server.closed then .writing else .processing⟩
  else ⟨report, client, session, .writing⟩

/-- A turn of `processRequests`, which meets the services of the process. -/
def turn (env : TurnEnv) (services : Services) (handling : Handling) : Handling :=
  match Session.processTurn env.toEnv { handling.session with services := services } with
  | .next session => { handling with session := session }
  | .exit session => { handling with session := session, position := .flushing }

/-- What is left of `handleRead` and `handleWrite` behind the turns. -/
def finish (handling : Handling) : Session :=
  let session :=
    if handling.position = .flushing then handling.session.handleWrite handling.report.sends
    else handling.session
  if handling.report.events.epollout then session.handleWrite handling.report.writeSends else session

end Handling

/-- A loop with its thread; the calls of an event that is being handled are not in the trace yet. -/
structure Worker where
  loop : EventLoop
  handling : Option Handling

namespace Worker

/-- The start of `handleEvent`. -/
def report (report : Report) (services : Services) (worker : Worker) : Worker :=
  let loop := { worker.loop with now := report.now }
  match loop.clients.lookup report.fd with
  | none => ⟨loop, none⟩
  | some client =>
    if report.events.epollerr ∨ report.events.epollhup then
      ⟨loop.closeConnection client.conn report.fd, none⟩
    else ⟨loop, some (.start report client services)⟩

/-- The end of `handleEvent`. -/
def complete (handling : Handling) (worker : Worker) : Worker where
  loop :=
    (handling.finish.trace.foldl
      (EventLoop.perform handling.client.server.fd handling.client.conn) worker.loop).storeServer
        handling.report.fd handling.client.conn handling.finish.server
  handling := none

end Worker

/-- What a loop does without the services. -/
inductive Command where
  | accept (results : List AcceptResult)
  | wakeup
  | check (now : Time)
  | exit

def Command.input : Command → LoopInput
  | accept results => .accept results
  | wakeup => .wakeup
  | check now => .check now
  | exit => .exit

inductive ThreadMove (ι : Type*) where
  | command (thread : ι) (command : Command)
  | report (thread : ι) (report : Report)
  | turn (thread : ι) (env : TurnEnv)
  | finish (thread : ι)

structure Threads (ι : Type*) where
  services : Services
  worker : ι → Worker

namespace Threads

variable {ι : Type*} [DecidableEq ι]

/-- The loops have been constructed, and nobody has connected. -/
def new (services : Services) (ids : ι → ℕ) : Threads ι where
  services := services
  worker thread := ⟨.new (ids thread) services, none⟩

def put (threads : Threads ι) (thread : ι) (worker : Worker) : Threads ι :=
  { threads with worker := Function.update threads.worker thread worker }

/-- A move of a thread that is not at the place for it does nothing. -/
def step (threads : Threads ι) : ThreadMove ι → Threads ι
  | .command thread command =>
    match (threads.worker thread).handling with
    | none => threads.put thread ⟨(threads.worker thread).loop.step command.input, none⟩
    | some _ => threads
  | .report thread report =>
    if (threads.worker thread).handling.isNone ∧ (threads.worker thread).loop.running ∧
        ¬ (threads.worker thread).loop.exited then
      threads.put thread ((threads.worker thread).report report threads.services)
    else threads
  | .turn thread env =>
    match (threads.worker thread).handling with
    | some handling =>
      if handling.position = .processing then
        let handling := handling.turn env threads.services
        { threads.put thread ⟨(threads.worker thread).loop, some handling⟩ with
          services := handling.session.services }
      else threads
    | none => threads
  | .finish thread =>
    match (threads.worker thread).handling with
    | some handling =>
      if handling.position = .processing then threads
      else threads.put thread ((threads.worker thread).complete handling)
    | none => threads

end Threads

/-! ## A loop does not look at its services -/

namespace EventLoop

/-- The same loop with other services. -/
def meets (services : Services) (loop : EventLoop) : EventLoop := { loop with services := services }

variable (services : Services) (loop : EventLoop)

theorem closeConnection_meets (conn fd : ℕ) : (loop.meets services).closeConnection conn fd =
    (loop.closeConnection conn fd).meets services := by
  unfold closeConnection
  change (match loop.clients.lookup fd with | none => _ | some client => _) = _
  cases loop.clients.lookup fd <;> rfl

theorem perform_meets (fd conn : ℕ) (action : Action) :
    perform fd conn (loop.meets services) action = (perform fd conn loop action).meets services := by
  cases action <;> first | rfl | exact closeConnection_meets services loop conn fd

theorem foldl_perform_meets (fd conn : ℕ) (actions : List Action) :
    actions.foldl (perform fd conn) (loop.meets services) =
      (actions.foldl (perform fd conn) loop).meets services := by
  induction actions generalizing loop with
  | nil => rfl
  | cons action actions ih => rw [List.foldl_cons, perform_meets, ih, List.foldl_cons]

theorem storeServer_meets (fd conn : ℕ) (server : HttpServer) :
    (loop.meets services).storeServer fd conn server =
      (loop.storeServer fd conn server).meets services := by
  have hclients : (loop.meets services).clients = loop.clients := rfl
  unfold storeServer
  rw [hclients]
  cases loop.clients.lookup fd with
  | none => rfl
  | some client =>
    dsimp only
    split
    · rfl
    · rfl

theorem acceptConnection_meets (results : List AcceptResult) :
    acceptConnection results (loop.meets services) =
      (acceptConnection results loop).meets services := by
  induction results generalizing loop with
  | nil => rfl
  | cons result results ih =>
    cases result with
    | connected now fd clientIp => exact ih (loop.acceptOne now fd clientIp)
    | failed errno =>
      unfold acceptConnection
      split <;> rfl

theorem timeoutCallback_meets (callback : TimeoutCallback) :
    timeoutCallback callback (loop.meets services) =
      (timeoutCallback callback loop).meets services :=
  closeConnection_meets services
    ((loop.emit (.timeout callback.fd callback.conn (loop.owner callback.fd))).log .info
      (lit "连接超时关闭 fd: " ++ decimal callback.fd)) callback.conn callback.fd

theorem fire_meets (node : TimerNode TimeoutCallback) :
    TcpTimer.fire EventLoop.timer setTimer timeoutCallback (loop.meets services) node =
      (TcpTimer.fire EventLoop.timer setTimer timeoutCallback loop node).meets services := by
  have htimer : (loop.meets services).timer = loop.timer := rfl
  have hset (timer : TcpTimer TimeoutCallback) :
      (loop.meets services).setTimer timer = (loop.setTimer timer).meets services := rfl
  have hdeleted : ((loop.setTimer (loop.timer.unmap node.fd)).meets services).timer =
      (loop.setTimer (loop.timer.unmap node.fd)).timer := rfl
  unfold TcpTimer.fire
  dsimp only
  rw [htimer, hset, hdeleted]
  split
  · rfl
  · exact timeoutCallback_meets services _ _

theorem checkExpired_meets (now : Time) : (loop.meets services).checkExpired now =
    (loop.checkExpired now).meets services := by
  have hfire (nodes : List (TimerNode TimeoutCallback)) (loop : EventLoop) :
      nodes.foldl (TcpTimer.fire EventLoop.timer setTimer timeoutCallback) (loop.meets services) =
        (nodes.foldl (TcpTimer.fire EventLoop.timer setTimer timeoutCallback) loop).meets services := by
    induction nodes generalizing loop with
    | nil => rfl
    | cons node nodes ih => rw [List.foldl_cons, fire_meets, ih, List.foldl_cons]
  unfold EventLoop.checkExpired TcpTimer.checkExpired
  apply hfire _ (setTimer { loop with now := now }
    { loop.timer with timerSet := (loop.timer.scan now loop.timer.timerSet).2 })

theorem step_meets (command : Command) : (loop.meets services).step command.input =
    (loop.step command.input).meets services := by
  have hexited : (loop.meets services).exited = loop.exited := rfl
  have hrunning : (loop.meets services).running = loop.running := rfl
  unfold EventLoop.step
  rw [hexited]
  split
  · rfl
  · cases command with
    | accept results =>
      dsimp only [Command.input]
      rw [hrunning]
      split
      · exact acceptConnection_meets services loop results
      · rfl
    | wakeup => rfl
    | check now => exact checkExpired_meets services loop now
    | exit =>
      dsimp only [Command.input]
      rw [closeAllConnections_eq, closeAllConnections_eq]
      rfl

variable {loop}

theorem step_ready (hexited : loop.exited = false) (hrunning : loop.running = true)
    (readiness : Readiness) : loop.step (.ready readiness) = loop.handleEvent readiness := by
  simp only [EventLoop.step, hexited, hrunning, Bool.false_eq_true, if_false, if_true]

end EventLoop

/-! ## Handling an event -/

namespace Handling

/-- What is left of the handlers, if the turns to come meet these environments. -/
def rest (handling : Handling) (envs : ℕ → Env) (session : Session) : Session :=
  let session :=
    match handling.position with
    | .processing => (session.processRequests envs).handleWrite handling.report.sends
    | .flushing => session.handleWrite handling.report.sends
    | .writing => session
  if handling.report.events.epollout then session.handleWrite handling.report.writeSends else session

/-- Environments for turns that do not take place. -/
def noEnvs : ℕ → Env := fun _ ↦ TurnEnv.toEnv ⟨0, 0, fun _ ↦ none⟩

/-- The environment of the next turn, and those of the turns behind it. -/
def before (env : Env) (envs : ℕ → Env) : ℕ → Env
  | 0 => env
  | i + 1 => envs i

/-- Behind the turns the rest of the handlers does the same whatever services there are. -/
theorem rest_seen {handling : Handling} (hposition : handling.position ≠ .processing)
    (envs : ℕ → Env) (met : Services) :
    handling.rest envs (handling.session.seen [] met) = handling.finish.seen [] met := by
  unfold rest finish
  cases hcase : handling.position with
  | processing => exact absurd hcase hposition
  | flushing =>
    simp only [if_true, Session.handleWrite_seen, apply_ite (Session.seen [] met)]
  | writing =>
    simp only [reduceCtorEq, if_false, Session.handleWrite_seen, apply_ite (Session.seen [] met)]

/-- The start of an event leaves the rest of its handlers. -/
theorem handlers_start (report : Report) (client : Client) (services met : Services) (envs : ℕ → Env) :
    EventLoop.handlers (report.readiness envs) ⟨client.server, met, []⟩ =
      (start report client services).rest envs ((start report client services).session.seen [] met) := by
  have hrecv := Session.recvIntoBuffer_seen [] met ⟨client.server, services, []⟩ report.recvs
  have hseen : Session.seen [] met ⟨client.server, services, []⟩ = ⟨client.server, met, []⟩ := rfl
  rw [hseen] at hrecv
  unfold EventLoop.handlers start
  by_cases hread : report.events.epollin = true ∨ report.events.epollrdhup = true
  · by_cases hclosed : client.server.closed = true
    · simp [hread, hclosed, rest, Report.readiness, Session.handleRead, hseen]
    · by_cases hshut :
          (Session.recvIntoBuffer report.recvs ⟨client.server, services, []⟩).server.closed = true
      · simp [hread, hclosed, hshut, rest, Report.readiness, Session.handleRead, hrecv]
      · simp [hread, hclosed, hshut, rest, Report.readiness, Session.handleRead, hrecv,
          Session.handleWrite]
  · simp [hread, rest, Report.readiness, hseen]

/-- A turn that meets the services of the process is the next turn of the rest, where its environment
brings these services along. -/
theorem rest_turn {handling : Handling} (hposition : handling.position = .processing) (env : TurnEnv)
    (services met : Services) : ∃ met', ∀ envs,
      handling.rest (before (env.toEnv.meeting services) envs) (handling.session.seen [] met) =
        (handling.turn env services).rest envs ((handling.turn env services).session.seen [] met') := by
  have hservices : Session.seen [] met { handling.session with services := services } =
      handling.session.seen [] met := rfl
  obtain ⟨left, hturn⟩ := Session.processTurn_seen [] met
    { handling.session with services := services } env.toEnv
  rw [hservices] at hturn
  unfold turn rest
  rw [hposition]
  cases hbody : Session.processTurn env.toEnv { handling.session with services := services } with
  | next session =>
    rw [hbody] at hturn
    apply Exists.intro session.services
    intro envs
    have hrun : (handling.session.seen [] met).processRequests
        (before (env.toEnv.meeting services) envs) =
          (session.seen [] session.services).processRequests envs := by
      apply Session.processLoop.run_of_next
      simp only [Session.processLoop, before, hturn, Turn.map]
    simp only [hrun]
  | exit session =>
    rw [hbody] at hturn
    apply Exists.intro left
    intro envs
    have hrun : (handling.session.seen [] met).processRequests
        (before (env.toEnv.meeting services) envs) = session.seen [] left := by
      apply Session.processLoop.run_of_exit
      simp only [Session.processLoop, before, hturn, Turn.map]
    simp only [hrun]

/-- The loop handles an event whose handlers are what the turns so far have done and the rest: for all
environments of the turns to come there are those of all its turns. -/
structure Continues (loop : EventLoop) (handling : Handling) : Prop where
  exited : loop.exited = false
  running : loop.running = true
  client : loop.clients.lookup handling.report.fd = some handling.client
  noError : ¬ (handling.report.events.epollerr = true ∨ handling.report.events.epollhup = true)
  handlers : ∃ (met : Services) (all : (ℕ → Env) → ℕ → Env), ∀ envs,
    EventLoop.handlers (handling.report.readiness (all envs))
        ⟨handling.client.server, loop.services, []⟩ =
      handling.rest envs (handling.session.seen [] met)

variable {loop : EventLoop} {handling : Handling}

theorem start_report (report : Report) (client : Client) (services : Services) :
    (start report client services).report = report := by
  unfold start
  split
  · split <;> rfl
  · rfl

theorem start_client (report : Report) (client : Client) (services : Services) :
    (start report client services).client = client := by
  unfold start
  split
  · split <;> rfl
  · rfl

theorem turn_report (env : TurnEnv) (services : Services) :
    (handling.turn env services).report = handling.report := by
  unfold Handling.turn
  split <;> rfl

theorem turn_client (env : TurnEnv) (services : Services) :
    (handling.turn env services).client = handling.client := by
  unfold Handling.turn
  split <;> rfl

theorem continues_start (hexited : loop.exited = false) (hrunning : loop.running = true)
    {report : Report} {client : Client} (hclient : loop.clients.lookup report.fd = some client)
    (hnoError : ¬ (report.events.epollerr = true ∨ report.events.epollhup = true))
    (services : Services) : Continues loop (start report client services) := by
  refine ⟨hexited, hrunning, ?_, ?_, ?_⟩
  · rw [start_report, start_client]
    exact hclient
  · rw [start_report]
    exact hnoError
  · rw [start_report, start_client]
    exact ⟨loop.services, id, handlers_start report client services loop.services⟩

theorem Continues.turn (h : Continues loop handling) (hposition : handling.position = .processing)
    (env : TurnEnv) (services : Services) : Continues loop (handling.turn env services) := by
  obtain ⟨met, all, hall⟩ := h.handlers
  obtain ⟨met', hturn⟩ := rest_turn hposition env services met
  refine ⟨h.exited, h.running, ?_, ?_, ?_⟩
  · rw [turn_report, turn_client]
    exact h.client
  · rw [turn_report]
    exact h.noError
  · rw [turn_report, turn_client]
    apply Exists.intro met'
    apply Exists.intro fun envs ↦ all (before (env.toEnv.meeting services) envs)
    intro envs
    rw [← hturn envs]
    exact hall _

/-- The end of an event is one step of the loop alone. -/
theorem Continues.step (h : Continues loop handling) (hposition : handling.position ≠ .processing) :
    ∃ envs, ∀ services,
      ((Worker.complete handling
          ⟨EventLoop.meets services { loop with now := handling.report.now }, some handling⟩).loop =
        (loop.step (.ready (handling.report.readiness envs))).meets services) := by
  obtain ⟨met, all, hall⟩ := h.handlers
  apply Exists.intro (all noEnvs)
  intro services
  have hhandlers := (hall noEnvs).trans (rest_seen hposition noEnvs met)
  have hstep : loop.handleEvent (handling.report.readiness (all noEnvs)) =
      (handling.finish.trace.foldl (EventLoop.perform handling.client.server.fd handling.client.conn)
        (EventLoop.meets met { loop with now := handling.report.now })).storeServer
          handling.report.fd handling.client.conn handling.finish.server := by
    have hlookup : AList.lookup (handling.report.readiness (all noEnvs)).fd loop.clients =
      some handling.client := h.client
    have hnoError : ¬ ((handling.report.readiness (all noEnvs)).events.epollerr = true ∨
        (handling.report.readiness (all noEnvs)).events.epollhup = true) := h.noError
    unfold EventLoop.handleEvent
    simp only [hlookup]
    rw [if_neg hnoError, hhandlers]
    rfl
  rw [EventLoop.step_ready h.exited h.running, hstep, Worker.complete]
  rw [EventLoop.foldl_perform_meets, EventLoop.storeServer_meets, EventLoop.foldl_perform_meets,
    EventLoop.storeServer_meets]
  rfl

end Handling

/-! ## Every loop runs alone -/

namespace Worker

open Handling

/-- The worker is where this loop is, or on the way from it to what the event it handles leaves. -/
def Follows (services : Services) (loop : EventLoop) (worker : Worker) : Prop :=
  match worker.handling with
  | none => worker.loop = loop.meets services
  | some handling =>
    worker.loop = EventLoop.meets services { loop with now := handling.report.now } ∧
      handling.Continues loop

theorem Follows.report {services : Services} {loop : EventLoop} {worker : Worker}
    (h : worker.Follows services loop) (hnone : worker.handling = none)
    (hrunning : worker.loop.running = true) (hexited : worker.loop.exited = false) (report : Report)
    (met : Services) :
    ∃ inputs, (worker.report report met).Follows services (run EventLoop.step loop inputs) := by
  unfold Follows at h
  rw [hnone] at h
  dsimp only at h
  have hrun : loop.running = true := by rw [← hrunning, h]; rfl
  have hgo : loop.exited = false := by rw [← hexited, h]; rfl
  have hclients : worker.loop.clients = loop.clients := by rw [h]; rfl
  unfold Worker.report
  dsimp only
  rw [hclients]
  have hfd : (report.readiness noEnvs).fd = report.fd := rfl
  cases hclient : loop.clients.lookup report.fd with
  | none =>
    apply Exists.intro [.ready (report.readiness noEnvs)]
    rw [run_cons, run_nil, EventLoop.step_ready hgo hrun, h]
    unfold EventLoop.handleEvent
    dsimp only
    rw [hfd, hclient]
    rfl
  | some client =>
    dsimp only
    split
    · rename_i herror
      apply Exists.intro [.ready (report.readiness noEnvs)]
      have hready : (report.readiness noEnvs).events.epollerr = true ∨
          (report.readiness noEnvs).events.epollhup = true := herror
      rw [run_cons, run_nil, EventLoop.step_ready hgo hrun, h]
      unfold EventLoop.handleEvent
      dsimp only
      rw [hfd, hclient]
      dsimp only
      rw [if_pos hready]
      exact EventLoop.closeConnection_meets services { loop with now := report.now } client.conn
        report.fd
    · rename_i hnoError
      apply Exists.intro []
      have hstarted : (Handling.start report client met).report = report :=
        Handling.start_report report client met
      refine ⟨?_, Handling.continues_start hgo hrun hclient hnoError met⟩
      rw [run_nil, hstarted, h]
      rfl

/-- The end of an event. -/
theorem Follows.complete {services : Services} {loop : EventLoop} {worker : Worker}
    (h : worker.Follows services loop) {handling : Handling} (hhandling : worker.handling = some handling)
    (hposition : handling.position ≠ .processing) :
    ∃ input, (worker.complete handling).Follows services (loop.step input) := by
  unfold Follows at h
  rw [hhandling] at h
  obtain ⟨hloop, hcontinues⟩ := h
  obtain ⟨envs, hstep⟩ := hcontinues.step hposition
  apply Exists.intro (.ready (handling.report.readiness envs))
  have hworker : worker.complete handling = Worker.complete handling
      ⟨EventLoop.meets services { loop with now := handling.report.now }, some handling⟩ := by
    rw [← hloop]
    rfl
  rw [hworker]
  exact hstep services

end Worker

namespace Threads

variable {ι : Type*} [DecidableEq ι] {services : Services} {ids : ι → ℕ} {threads : Threads ι}

@[simp]
theorem worker_put_self (thread : ι) (worker : Worker) :
    (threads.put thread worker).worker thread = worker := Function.update_self ..

theorem worker_put_of_ne {thread other : ι} (h : other ≠ thread) (worker : Worker) :
    (threads.put thread worker).worker other = threads.worker other := Function.update_of_ne h ..

/-- Every worker is where a run of its loop alone is. -/
def FollowsRuns (services : Services) (ids : ι → ℕ) (threads : Threads ι) : Prop :=
  ∀ thread, ∃ inputs, (threads.worker thread).Follows services
    (run EventLoop.step (EventLoop.new (ids thread) services) inputs)

theorem FollowsRuns.put (h : FollowsRuns services ids threads) {thread : ι} {worker : Worker}
    (hworker : ∃ inputs, worker.Follows services
      (run EventLoop.step (EventLoop.new (ids thread) services) inputs)) :
    FollowsRuns services ids (threads.put thread worker) := by
  intro other
  by_cases hother : other = thread
  · subst hother
    rw [worker_put_self]
    exact hworker
  · rw [worker_put_of_ne hother]
    exact h other

theorem FollowsRuns.step (h : FollowsRuns services ids threads) (move : ThreadMove ι) :
    FollowsRuns services ids (threads.step move) := by
  unfold Threads.step
  cases move with
  | command thread command =>
    obtain ⟨inputs, hfollows⟩ := h thread
    dsimp only
    cases hhandling : (threads.worker thread).handling with
    | some handling => exact h
    | none =>
      unfold Worker.Follows at hfollows
      rw [hhandling] at hfollows
      dsimp only at hfollows
      apply h.put
      apply Exists.intro (inputs ++ [command.input])
      rw [run_append, run_cons, run_nil]
      dsimp only [Worker.Follows]
      rw [hfollows, EventLoop.step_meets]
  | report thread report =>
    obtain ⟨inputs, hfollows⟩ := h thread
    dsimp only
    split
    · rename_i hready
      obtain ⟨hnone, hrunning, hexited⟩ := hready
      obtain ⟨later, hreport⟩ := hfollows.report (Option.isNone_iff_eq_none.mp hnone) hrunning
        (by simpa using hexited) report threads.services
      apply h.put
      apply Exists.intro (inputs ++ later)
      rw [run_append]
      exact hreport
    · exact h
  | turn thread env =>
    obtain ⟨inputs, hfollows⟩ := h thread
    dsimp only
    cases hhandling : (threads.worker thread).handling with
    | none => exact h
    | some handling =>
      unfold Worker.Follows at hfollows
      rw [hhandling] at hfollows
      dsimp only at hfollows ⊢
      split
      · rename_i hposition
        have hturn : Worker.Follows services
            (run EventLoop.step (EventLoop.new (ids thread) services) inputs)
            ⟨(threads.worker thread).loop, some (handling.turn env threads.services)⟩ := by
          refine ⟨?_, hfollows.2.turn hposition env threads.services⟩
          rw [Handling.turn_report]
          exact hfollows.1
        exact h.put ⟨inputs, hturn⟩
      · exact h
  | finish thread =>
    obtain ⟨inputs, hfollows⟩ := h thread
    dsimp only
    cases hhandling : (threads.worker thread).handling with
    | none => exact h
    | some handling =>
      dsimp only
      split
      · exact h
      · rename_i hposition
        obtain ⟨input, hcomplete⟩ := hfollows.complete hhandling hposition
        apply h.put
        apply Exists.intro (inputs ++ [input])
        rw [run_append, run_cons, run_nil]
        exact hcomplete

theorem followsRuns_run (services : Services) (ids : ι → ℕ) (moves : List (ThreadMove ι)) :
    FollowsRuns services ids (run step (new services ids) moves) := by
  have hnew : FollowsRuns services ids (new services ids) := fun _ ↦ ⟨[], rfl⟩
  exact run_invariant_of_forall (fun _ move h ↦ h.step move) hnew moves

/-- However the moves of the threads are interleaved, every loop is at every moment the loop of a run of
its own, in which each event is handled in one step. -/
theorem loops_run_alone (services : Services) (ids : ι → ℕ) (moves : List (ThreadMove ι)) (thread : ι) :
    ∃ inputs,
      let worker := (run step (new services ids) moves).worker thread
      let loop := run EventLoop.step (EventLoop.new (ids thread) services) inputs
      worker.loop = { loop with now := worker.loop.now, services := services } ∧
        (worker.handling = none → worker.loop.now = loop.now) := by
  obtain ⟨inputs, hfollows⟩ := followsRuns_run services ids moves thread
  apply Exists.intro inputs
  unfold Worker.Follows at hfollows
  dsimp only
  cases hhandling : ((run step (new services ids) moves).worker thread).handling with
  | none =>
    rw [hhandling] at hfollows
    dsimp only at hfollows
    rw [hfollows]
    exact ⟨rfl, fun _ ↦ rfl⟩
  | some handling =>
    rw [hhandling] at hfollows
    rw [hfollows.1]
    exact ⟨rfl, fun hnone ↦ absurd hnone (by simp)⟩

end Threads

end WebServer
