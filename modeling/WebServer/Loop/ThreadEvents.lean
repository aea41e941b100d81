import WebServer.Loop.ThreadConnections

/-!
# The events of a thread, move by move

The start of an event receives, its turns are turns of the connection, and its end flushes. At every
moment in between, the moves of the connections have led to where the worker is.
-/

namespace WebServer

open Bytes Execution

variable {ι : Type*}

/-- The place of a connection whose event is being handled. -/
def Position.phase : Position → Phase
  | processing => .processing
  | flushing => .flushing
  | writing => .idle

namespace Session

/-- A turn only adds to the calls made before. -/
theorem processTurn_recorded (before : List Action) (env : Env) (session : Session) :
    processTurn env (session.seen before session.services) = (processTurn env session).map
      (fun left ↦ left.seen before left.services) (fun left ↦ left.seen before left.services) := by
  have hafter (request : HttpRequest) (consumed : ℕ) :
      (session.seen before session.services).afterRequest env request consumed =
        (session.afterRequest env request consumed).seen before
          (session.afterRequest env request consumed).services := by
    simp [afterRequest, adoptKeepAlive, answerWith, consume, seen, setServer, emit]
  have hbuffer : (session.seen before session.services).server.inBuffer = session.server.inBuffer := rfl
  cases hparse : HttpRequest.parse session.server.inBuffer with
  | needMore =>
    rw [processTurn_needMore hparse, processTurn_needMore (hbuffer ▸ hparse)]
    rfl
  | error errorCode =>
    rw [processTurn_error hparse, processTurn_error (hbuffer ▸ hparse), reject_seen]
    rfl
  | ok request consumed =>
    rw [processTurn_ok hparse, processTurn_ok (hbuffer ▸ hparse), hafter, outQueueExceeded_seen]
    generalize session.afterRequest env request consumed = left
    have hservices : left.outQueueExceeded.services = left.services := rfl
    by_cases hkeep : request.keepAlive = false
    · simp [hkeep, Turn.map]
    · by_cases hfull : HttpServer.maxOutSegments < left.server.outQueue.length
      · simp [hkeep, hfull, Turn.map, hservices]
      · simp [hkeep, hfull, Turn.map]

end Session

namespace Cluster

variable [DecidableEq ι] {cluster : Cluster (ConnectionId ι)} {id : ConnectionId ι} {session : Session}
  {before : List Action}

omit [DecidableEq ι] in
/-- A connection with calls of earlier events. -/
theorem session_eq_seen {phase : Phase}
    (h : cluster.connection id = ⟨session.server, before ++ session.trace, phase⟩) :
    cluster.session id = session.seen before cluster.services := by
  rw [Cluster.session, h]
  rfl

/-- The flush at the end of an event. -/
theorem step_write {phase : Phase} {move : Move (ConnectionId ι)} {sends : ℕ → SysResult}
    (h : cluster.connection id = ⟨session.server, before ++ session.trace, phase⟩)
    (hmove : (move = .flush id sends ∧ phase = .flushing) ∨ (move = .write id sends ∧ phase = .idle)) :
    cluster.step move =
      cluster.put id ((session.handleWrite sends).seen before cluster.services) .idle := by
  rw [← Session.handleWrite_seen, ← session_eq_seen h]
  obtain ⟨rfl, rfl⟩ | ⟨rfl, rfl⟩ := hmove
  · have hphase : (cluster.connection id).phase = .flushing := by rw [h]
    exact if_pos hphase
  · have hphase : (cluster.connection id).phase = .idle := by rw [h]
    exact if_pos hphase

/-- The receive loop of an event. -/
theorem step_receive (h : cluster.connection id = ⟨session.server, before ++ session.trace, .idle⟩)
    (hopen : session.server.closed = false) (recvs : List RecvResult) :
    cluster.step (.receive id recvs) =
      cluster.put id ((session.recvIntoBuffer recvs).seen before cluster.services)
        (if (session.recvIntoBuffer recvs).server.closed then .idle else .processing) := by
  have hphase : (cluster.connection id).phase = .idle := by rw [h]
  have hreceive : cluster.step (.receive id recvs) = cluster.receive id recvs := if_pos hphase
  have hserver : (cluster.connection id).server.closed = false := by rw [h]; exact hopen
  rw [hreceive, receive, if_neg (by simp [hserver]), session_eq_seen h]
  dsimp only
  rw [Session.recvIntoBuffer_seen]
  rfl

end Cluster

/-- One flush of the connection whose event is being handled. -/
theorem EventLoop.Shows.write [DecidableEq ι] {cluster : Cluster (ConnectionId ι)} {thread : ι}
    {loop : EventLoop} {root : Services} {fd : ℕ} {client : Client}
    (h : loop.Shows cluster thread (some client.conn)) (hprojects : loop.Projects root)
    (hclient : loop.clients.lookup fd = some client) {session : Session} {before : List Action}
    {phase : Phase}
    (hconnection : cluster.connection (client.id thread fd) =
      ⟨session.server, before ++ session.trace, phase⟩)
    (sends : ℕ → SysResult) {move : Move (ConnectionId ι)}
    (hmove : (move = .flush (client.id thread fd) sends ∧ phase = .flushing) ∨
      (move = .write (client.id thread fd) sends ∧ phase = .idle)) :
    move.Outside thread ∧ loop.Shows (cluster.step move) thread (some client.conn) ∧
      (cluster.step move).connection (client.id thread fd) =
        ⟨(session.handleWrite sends).server, before ++ (session.handleWrite sends).trace, .idle⟩ ∧
      (session.handleWrite sends).server.clientIp = session.server.clientIp := by
  have houtside : move.Outside thread := by
    obtain ⟨rfl, -⟩ | ⟨rfl, -⟩ := hmove
    · rfl
    · rfl
  rw [Cluster.step_write hconnection hmove]
  exact ⟨houtside, h.put hprojects hclient _ _, Cluster.put_connection_self _ _,
    Session.clientIp_step session (.write sends)⟩

namespace Worker

/-- The moves of the connections have led to where the worker is. -/
def Shown (cluster : Cluster (ConnectionId ι)) (thread : ι) (worker : Worker) : Prop :=
  match worker.handling with
  | none => worker.loop.Shows cluster thread none
  | some handling => worker.loop.Shows cluster thread (some handling.client.conn) ∧
      cluster.connection (handling.client.id thread handling.report.fd) =
        ⟨handling.session.server,
          actionsOf handling.client.conn worker.loop.trace ++ handling.session.trace,
          handling.position.phase⟩ ∧
      handling.session.server.clientIp = handling.client.server.clientIp

variable {cluster : Cluster (ConnectionId ι)} {thread : ι} {worker : Worker} {root : Services}

/-- Moves of the connections of other threads. -/
theorem Shown.of_same {cluster' : Cluster (ConnectionId ι)} (h : worker.Shown cluster thread)
    (hsame : ∀ id : ConnectionId ι, id.thread = thread →
      cluster'.connection id = cluster.connection id) :
    worker.Shown cluster' thread := by
  unfold Shown at h ⊢
  cases hhandling : worker.handling with
  | none =>
    rw [hhandling] at h
    exact EventLoop.Shows.of_same h hsame
  | some handling =>
    rw [hhandling] at h
    dsimp only at h ⊢
    rw [hsame (handling.client.id thread handling.report.fd) rfl]
    exact ⟨h.1.of_same hsame, h.2⟩

variable [DecidableEq ι]

/-- What a loop does without the services. -/
theorem Shown.command {loop : EventLoop} (h : loop.Shows cluster thread none) (hsteady : loop.Steady)
    (hprojects : loop.Projects root) (command : Command) :
    ∃ moves : List (Move (ConnectionId ι)), (∀ move ∈ moves, move.Outside thread) ∧
      (loop.step command.input).Shows (run Cluster.step cluster moves) thread none := by
  unfold EventLoop.step
  split
  · exact ⟨[], by simp, h⟩
  · rename_i hexited
    have hconsistent := hsteady.consistent (by simpa using hexited)
    cases command with
    | accept results =>
      refine ⟨[], by simp, ?_⟩
      dsimp only [Command.input]
      split
      · exact h.acceptConnection hconsistent hprojects results
      · exact h
    | wakeup =>
      exact ⟨[], by simp, h.append [] (fun _ ↦ rfl) rfl rfl (List.append_nil _).symm⟩
    | check now => exact h.checkExpired hconsistent hprojects now
    | exit =>
      obtain ⟨moves, hmoves, hshows⟩ := h.closeAllConnections hconsistent hprojects
      refine ⟨moves, hmoves, ?_⟩
      exact hshows.append [⟨loop.closeAllConnections.now,
        .log .info (loop.closeAllConnections.logText (lit "exit"))⟩] (fun _ ↦ rfl) rfl rfl rfl

/-- The start of an event. -/
theorem Shown.report (h : worker.loop.Shows cluster thread none)
    (hconsistent : worker.loop.Consistent []) (hprojects : worker.loop.Projects root) (report : Report)
    (services : Services) :
    ∃ moves : List (Move (ConnectionId ι)), (∀ move ∈ moves, move.Outside thread) ∧
      (worker.report report services).Shown (run Cluster.step cluster moves) thread := by
  have hnow : EventLoop.Shows cluster thread none { worker.loop with now := report.now } :=
    h.append [] (fun _ ↦ rfl) rfl rfl (List.append_nil _).symm
  have hconsistent' : EventLoop.Consistent { worker.loop with now := report.now } [] :=
    hconsistent.append [] (by simp) rfl rfl rfl (List.append_nil _).symm
  have hprojects' : EventLoop.Projects root { worker.loop with now := report.now } :=
    hprojects.append [] (fun _ ↦ rfl) rfl rfl rfl rfl (List.append_nil _).symm
  unfold Worker.report
  dsimp only
  cases hclient : worker.loop.clients.lookup report.fd with
  | none => exact ⟨[], by simp, hnow⟩
  | some client =>
    obtain ⟨-, hopen⟩ := hconsistent.server report.fd client hclient
    dsimp only
    split
    · refine ⟨[.close (client.id thread report.fd)], by simp [Move.Outside, Client.id], ?_⟩
      have hclosed : EventLoop.Shows (cluster.step (.close (client.id thread report.fd))) thread none
          (EventLoop.closeConnection { worker.loop with now := report.now } client.conn report.fd) := by
        have hclient' : AList.lookup report.fd { worker.loop with now := report.now }.clients =
          some client := hclient
        have heq := EventLoop.closeConnection_eq client.conn hclient'
        apply hnow.close hconsistent' hprojects' hclient'
          (callsFor_close { worker.loop with now := report.now } report.fd client.conn)
        · rw [heq]
        · rw [heq]
      exact hclosed
    · let session : Session := ⟨client.server, services, []⟩
      have hentry : cluster.connection (client.id thread report.fd) = ⟨session.server,
          actionsOf client.conn worker.loop.trace ++ session.trace, .idle⟩ := by
        rw [List.append_nil]
        exact h.entries report.fd client hclient (by simp)
      unfold Handling.start
      dsimp only
      split
      · rw [if_neg (by simp [hopen])]
        have hreceive := Cluster.step_receive hentry hopen report.recvs
        refine ⟨[.receive (client.id thread report.fd) report.recvs],
          by simp [Move.Outside, Client.id], ?_⟩
        rw [run_cons, run_nil, hreceive]
        refine ⟨(hnow.engage client.conn).put hprojects' hclient _ _, ?_, ?_⟩
        · rw [Cluster.put_connection_self]
          dsimp only [Session.seen_server, Session.seen_trace]
          congr 1
          split <;> rfl
        · dsimp only
          rw [Session.recvIntoBuffer_server]
      · refine ⟨[], by simp, ?_⟩
        exact ⟨hnow.engage client.conn, hentry, rfl⟩

/-- A turn of an event. -/
theorem Shown.turn {handling : Handling} {loop : EventLoop}
    (h : (Worker.mk loop (some handling)).Shown cluster thread)
    (hposition : handling.position = .processing) (hprojects : loop.Projects root)
    (hclient : loop.clients.lookup handling.report.fd = some handling.client) (env : TurnEnv) :
    (Worker.mk loop (some (handling.turn env cluster.services))).Shown
        (cluster.step (.turn (handling.client.id thread handling.report.fd) env)) thread ∧
      (cluster.step (.turn (handling.client.id thread handling.report.fd) env)).services =
        (handling.turn env cluster.services).session.services := by
  obtain ⟨hshows, hconnection, hclientIp⟩ := h
  rw [hposition] at hconnection
  let id := handling.client.id thread handling.report.fd
  let met : Session := { handling.session with services := cluster.services }
  have hphase : (cluster.connection id).phase = .processing := by
    rw [hconnection]
    rfl
  have hstep : cluster.step (.turn id env) = cluster.turn id env := if_pos hphase
  have hmet : cluster.connection id =
      ⟨met.server, actionsOf handling.client.conn loop.trace ++ met.trace, .processing⟩ := hconnection
  have hsession : cluster.session id =
      met.seen (actionsOf handling.client.conn loop.trace) met.services :=
    Cluster.session_eq_seen hmet
  have hrecord : loop.Shows (cluster.record id) thread (some handling.client.conn) :=
    hshows.of_same fun _ _ ↦ rfl
  have hturn := Session.processTurn_recorded (actionsOf handling.client.conn loop.trace) env.toEnv met
  rw [hstep, Cluster.turn, hsession, hturn]
  unfold Handling.turn
  cases hbody : Session.processTurn env.toEnv met with
  | next session =>
    dsimp only [Turn.map]
    refine ⟨⟨hrecord.put hprojects hclient _ _, ?_, ?_⟩, rfl⟩
    · rw [hposition]
      exact Cluster.put_connection_self _ _
    · exact (Session.clientIp_processTurn (.inl hbody)).trans hclientIp
  | exit session =>
    dsimp only [Turn.map]
    refine ⟨⟨hrecord.put hprojects hclient _ _, ?_, ?_⟩, rfl⟩
    · exact Cluster.put_connection_self _ _
    · exact (Session.clientIp_processTurn (.inr hbody)).trans hclientIp

/-- The flushes at the end of an event. -/
theorem Shown.flush {handling : Handling} {loop : EventLoop}
    (h : (Worker.mk loop (some handling)).Shown cluster thread)
    (hposition : handling.position ≠ .processing) (hprojects : loop.Projects root)
    (hclient : loop.clients.lookup handling.report.fd = some handling.client) :
    ∃ moves : List (Move (ConnectionId ι)), (∀ move ∈ moves, move.Outside thread) ∧
      loop.Shows (run Cluster.step cluster moves) thread (some handling.client.conn) ∧
      (run Cluster.step cluster moves).connection (handling.client.id thread handling.report.fd) =
        ⟨handling.finish.server,
          actionsOf handling.client.conn loop.trace ++ handling.finish.trace, .idle⟩ ∧
      handling.finish.server.clientIp = handling.client.server.clientIp := by
  obtain ⟨hshows, hconnection, hclientIp⟩ := h
  -- the flush of `handleRead`
  obtain ⟨first, session, hfirst, hsession, hshows, hconnection, hclientIp⟩ :
      ∃ (first : List (Move (ConnectionId ι))) (session : Session),
        (∀ move ∈ first, move.Outside thread) ∧
        session = (if handling.position = .flushing then
          handling.session.handleWrite handling.report.sends else handling.session) ∧
        loop.Shows (run Cluster.step cluster first) thread (some handling.client.conn) ∧
        (run Cluster.step cluster first).connection (handling.client.id thread handling.report.fd) =
          ⟨session.server, actionsOf handling.client.conn loop.trace ++ session.trace, .idle⟩ ∧
        session.server.clientIp = handling.client.server.clientIp := by
    cases hcase : handling.position with
    | processing => exact absurd hcase hposition
    | flushing =>
      rw [hcase] at hconnection
      obtain ⟨houtside, hwrote⟩ := hshows.write hprojects hclient hconnection handling.report.sends
        (.inl ⟨rfl, rfl⟩)
      refine ⟨[.flush (handling.client.id thread handling.report.fd) handling.report.sends], _,
        by simpa using houtside, if_pos rfl |>.symm, hwrote.1, hwrote.2.1, hwrote.2.2.trans hclientIp⟩
    | writing =>
      rw [hcase] at hconnection
      exact ⟨[], handling.session, by simp, (if_neg (by simp)).symm, hshows, hconnection, hclientIp⟩
  unfold Handling.finish
  rw [← hsession]
  dsimp only
  split
  · obtain ⟨houtside, hwrote⟩ := hshows.write hprojects hclient hconnection handling.report.writeSends
      (.inr ⟨rfl, rfl⟩)
    refine ⟨first ++ [.write (handling.client.id thread handling.report.fd) handling.report.writeSends],
      ?_, ?_⟩
    · intro move hmove
      obtain hmem | hmem := List.mem_append.mp hmove
      · exact hfirst move hmem
      · obtain rfl := List.mem_singleton.mp hmem
        exact houtside
    · rw [run_append, run_cons, run_nil]
      exact ⟨hwrote.1, hwrote.2.1, hwrote.2.2.trans hclientIp⟩
  · exact ⟨first, hfirst, hshows, hconnection, hclientIp⟩

/-- The end of an event. -/
theorem Shown.complete {handling : Handling} {loop : EventLoop}
    (h : (Worker.mk loop (some handling)).Shown cluster thread)
    (hposition : handling.position ≠ .processing) (hconsistent : loop.Consistent [])
    (hprojects : loop.Projects root)
    (hclient : loop.clients.lookup handling.report.fd = some handling.client) {met left : Services}
    (hlast : Session.ClosesLast ⟨handling.client.server, met, []⟩ (handling.finish.seen [] left)) :
    ∃ moves : List (Move (ConnectionId ι)), (∀ move ∈ moves, move.Outside thread) ∧
      ((Worker.mk loop (some handling)).complete handling).Shown
        (run Cluster.step cluster moves) thread := by
  obtain ⟨hfd, -⟩ := hconsistent.server handling.report.fd handling.client hclient
  obtain ⟨moves, hmoves, hshows, hconnection, hclientIp⟩ := h.flush hposition hprojects hclient
  refine ⟨moves, hmoves, ?_⟩
  unfold Worker.complete
  rw [hfd]
  have hcalls (actions : List Action) := callsFor_connection loop.now handling.report.fd
    handling.client.conn (loop.owner handling.report.fd) actions
  suffices hdone : EventLoop.Shows (run Cluster.step cluster moves) thread none
      (((handling.finish.seen [] left).trace.foldl
        (EventLoop.perform handling.report.fd handling.client.conn) loop).storeServer
          handling.report.fd handling.client.conn (handling.finish.seen [] left).server) from hdone
  obtain ⟨-, heq⟩ | ⟨actions, -, htrace, heq⟩ := EventLoop.handled_cases hclient hlast
  · rw [heq]
    apply hshows.settle hprojects hclient (hcalls handling.finish.trace) hconnection hclientIp
    · rfl
    · intro fd client' hclient'
      obtain ⟨rfl, rfl⟩ | hother := EventLoop.lookup_insert_eq_some.mp hclient'
      · exact .inl ⟨rfl, rfl⟩
      · exact .inr (hconsistent.other_of_erase hclient (EventLoop.lookup_erase_eq_some.mpr hother))
  · -- the close takes the connection out of the table
    have hrecord : (loop.record handling.report.fd handling.client.conn actions).clients.lookup
      handling.report.fd = some handling.client := hclient
    have hfinish : handling.finish.trace = actions ++ [.closeConnection] := htrace
    rw [hfinish] at hconnection
    rw [heq, EventLoop.closeConnection_eq handling.client.conn hrecord]
    apply hshows.settle hprojects hclient ((hcalls actions).append
      (callsFor_close loop handling.report.fd handling.client.conn)) hconnection hclientIp
    · exact List.append_assoc ..
    · intro fd client' hclient'
      exact .inr (hconsistent.other_of_erase hclient hclient')

/-- What has been called for a connection, with the event that is being handled. -/
def calls (worker : Worker) (conn : ℕ) : List Action :=
  actionsOf conn worker.loop.trace ++
    match worker.handling with
    | some handling => if handling.client.conn = conn then handling.session.trace else []
    | none => []

omit [DecidableEq ι] in
/-- Every connection that was accepted is where its moves have led, and nothing else has its number. -/
theorem Shown.trace_eq (h : worker.Shown cluster thread) (hprojects : worker.loop.Projects root)
    (hclient : ∀ handling, worker.handling = some handling →
      worker.loop.clients.lookup handling.report.fd = some handling.client) {fd conn : ℕ}
    {clientIp : Bytes} (haccepted : AcceptedAt worker.loop.trace fd conn clientIp) :
    (cluster.connection ⟨thread, conn, fd, clientIp⟩).trace = worker.calls conn ∧
      ∀ id : ConnectionId ι, id.thread = thread → id.conn = conn → id ≠ ⟨thread, conn, fd, clientIp⟩ →
        cluster.connection id = id.initial := by
  unfold Shown at h
  unfold calls
  cases hhandling : worker.handling with
  | none =>
    rw [hhandling] at h
    dsimp only
    rw [List.append_nil]
    exact h.traces fd conn clientIp haccepted (by simp)
  | some handling =>
    rw [hhandling] at h
    obtain ⟨hshows, hconnection, -⟩ := h
    dsimp only
    by_cases hconn : handling.client.conn = conn
    · subst hconn
      have hentry := hclient handling hhandling
      obtain ⟨rfl, rfl⟩ := hprojects.unique _ _ _ _ _ haccepted (hprojects.opened _ _ hentry)
      rw [if_pos rfl]
      exact ⟨congrArg Connection.trace hconnection, hshows.owned _ _ hentry⟩
    · rw [if_neg hconn, List.append_nil]
      exact hshows.traces fd conn clientIp haccepted (fun heq ↦ hconn (Option.some.inj heq))

omit [DecidableEq ι] in
theorem Shown.fresh (h : worker.Shown cluster thread) (id : ConnectionId ι) (hthread : id.thread = thread)
    (hnot : ∀ fd clientIp, ¬ AcceptedAt worker.loop.trace fd id.conn clientIp) :
    cluster.connection id = id.initial := by
  unfold Shown at h
  cases hhandling : worker.handling with
  | none =>
    rw [hhandling] at h
    exact EventLoop.Shows.fresh h id hthread hnot
  | some handling =>
    rw [hhandling] at h
    exact h.1.fresh id hthread hnot

end Worker

end WebServer
