import WebServer.Loop.Threads

/-!
# The connections of a loop, move by move

A connection of the process is known by its thread, its number there and what `accept` said of it. What
a loop does to its table, from its first `accept` to its end, is what moves of the connections in it do:
whatever takes a connection out of the table closes it, and an event that has been handled leaves what
the moves of its connection have left.
-/

namespace WebServer

open Bytes Execution

/-- A connection of the process: its thread, its number there, and what `accept` said of it. -/
structure ConnectionId (ι : Type*) where
  thread : ι
  conn : ℕ
  fd : ℕ
  clientIp : Bytes
  deriving DecidableEq

variable {ι : Type*}

/-- A connection that has done nothing. -/
def ConnectionId.initial (id : ConnectionId ι) : Connection where
  server := HttpServer.new id.fd id.clientIp
  trace := []
  phase := .idle

/-- The connection of an entry of `_clients`. -/
def Client.id (thread : ι) (fd : ℕ) (client : Client) : ConnectionId ι where
  thread := thread
  conn := client.conn
  fd := fd
  clientIp := client.server.clientIp

/-! ## Moves of one thread -/

/-- A move of a connection of a thread that leaves the services alone. -/
def Move.Outside (thread : ι) : Move (ConnectionId ι) → Prop
  | .turn .. => False
  | .receive id _ | .flush id _ | .write id _ | .close id => id.thread = thread

namespace Cluster

variable [DecidableEq ι] {cluster : Cluster (ConnectionId ι)} {thread : ι}

theorem put_outside {id : ConnectionId ι} (hthread : id.thread = thread) {session : Session}
    (hservices : session.services = cluster.services) (phase : Phase) :
    (cluster.put id session phase).services = cluster.services ∧
      ∀ other : ConnectionId ι, other.thread ≠ thread →
        (cluster.put id session phase).connection other = cluster.connection other := by
  refine ⟨hservices, ?_⟩
  intro other hother
  apply put_connection_of_ne
  intro hsame
  exact hother (hsame ▸ hthread)

theorem outside_step (cluster : Cluster (ConnectionId ι)) {move : Move (ConnectionId ι)}
    (hmove : move.Outside thread) :
    (cluster.step move).services = cluster.services ∧
      ∀ other : ConnectionId ι, other.thread ≠ thread →
        (cluster.step move).connection other = cluster.connection other := by
  have hacts := acts_step cluster move
  generalize cluster.step move = next at hacts ⊢
  cases hacts with
  | skip => exact ⟨rfl, fun _ _ ↦ rfl⟩
  | @receive id recvs =>
    exact put_outside hmove (Session.recvIntoBuffer_extends (cluster.session id) recvs).2 _
  | @turn id env => exact False.elim hmove
  | @write id sends move hcases =>
    have hthread : id.thread = thread := by
      obtain rfl | rfl := hcases
      · exact hmove
      · exact hmove
    apply put_outside hthread
    unfold Session.handleWrite
    split
    · rfl
    · exact (Session.tryFlush_flushed sends (cluster.session id)).services
  | @close id =>
    apply put_outside hmove
    unfold Session.step
    dsimp only
    split <;> rfl

theorem outside_run (cluster : Cluster (ConnectionId ι)) {moves : List (Move (ConnectionId ι))}
    (hmoves : ∀ move ∈ moves, move.Outside thread) :
    (run step cluster moves).services = cluster.services ∧
      ∀ other : ConnectionId ι, other.thread ≠ thread →
        (run step cluster moves).connection other = cluster.connection other := by
  induction moves generalizing cluster with
  | nil => exact ⟨rfl, fun _ _ ↦ rfl⟩
  | cons move moves ih =>
    obtain ⟨hmove, hmoves⟩ := List.forall_mem_cons.mp hmoves
    have hstep := outside_step cluster hmove
    have hrun := ih (cluster.step move) hmoves
    exact ⟨hrun.1.trans hstep.1, fun other hother ↦ (hrun.2 other hother).trans (hstep.2 other hother)⟩

/-- A close of an open connection. -/
theorem step_close {id : ConnectionId ι} {server : HttpServer} {trace : List Action}
    (hconnection : cluster.connection id = ⟨server, trace, .idle⟩) (hopen : server.closed = false) :
    cluster.step (.close id) = cluster.put id
      ⟨{ server with closed := true }, cluster.services, trace ++ [.closeConnection]⟩ .idle := by
  have hidle : (cluster.connection id).phase = .idle := by rw [hconnection]
  have hsession : cluster.session id = ⟨server, cluster.services, trace⟩ := by
    rw [Cluster.session, hconnection]
  have hclose : Session.step ⟨server, cluster.services, trace⟩ .close =
      ⟨{ server with closed := true }, cluster.services, trace ++ [.closeConnection]⟩ := by
    simp [Session.step, hopen, Session.closeConnection, Session.setServer, Session.emit]
  rw [← hclose, ← hsession]
  exact if_pos hidle

/-- Closes of open connections, of each of them one. -/
theorem connection_closes {ids : List (ConnectionId ι)} (hnodup : ids.Nodup)
    (hready : ∀ id ∈ ids, (cluster.connection id).phase = .idle ∧
      (cluster.connection id).server.closed = false) (id : ConnectionId ι) :
    (run step cluster (ids.map .close)).connection id =
      if id ∈ ids then
        ⟨{ (cluster.connection id).server with closed := true },
          (cluster.connection id).trace ++ [.closeConnection], .idle⟩
      else cluster.connection id := by
  induction ids generalizing cluster with
  | nil => rfl
  | cons head ids ih =>
    obtain ⟨hnotMem, hnodup⟩ := List.nodup_cons.mp hnodup
    obtain ⟨⟨hidle, hopen⟩, hready⟩ := List.forall_mem_cons.mp hready
    have hconnection : cluster.connection head =
        ⟨(cluster.connection head).server, (cluster.connection head).trace, .idle⟩ := by
      rw [← hidle]
    rw [List.map_cons, run_cons, step_close hconnection hopen]
    have hother {other : ConnectionId ι} (h : other ≠ head) (session : Session) :
        (cluster.put head session .idle).connection other = cluster.connection other :=
      put_connection_of_ne session .idle h
    rw [ih hnodup]
    · by_cases hhead : id = head
      · subst hhead
        rw [if_neg hnotMem, if_pos List.mem_cons_self, put_connection_self]
      · simp only [hother hhead, List.mem_cons, hhead, false_or]
    · intro other hmem
      have hne : other ≠ head := fun heq ↦ hnotMem (heq ▸ hmem)
      rw [hother hne]
      exact hready other hmem

end Cluster

/-! ## The connections of a loop -/

namespace EventLoop

/-- The connections of the table are different ones. -/
theorem Consistent.nodup_conns {loop : EventLoop} (h : loop.Consistent []) :
    (loop.clients.entries.map fun entry ↦ entry.2.conn).Nodup := by
  have hsound := h.sound_exit.closed
  rw [closeAllConnections_eq] at hsound
  simp only [EventLoop.log, emit, closedConns_append,
    closedConns_farewell fun _ ↦ owner_of_mem_entries] at hsound
  exact hsound.of_append_left.of_append_right

/-- The other entries are other connections. -/
theorem Consistent.other_of_erase {loop : EventLoop} {pending : List (TimerNode TimeoutCallback)}
    (h : loop.Consistent pending) {fd fd' : ℕ} {client client' : Client}
    (hclient : loop.clients.lookup fd = some client)
    (hclient' : (loop.clients.erase fd).lookup fd' = some client') :
    client'.conn ≠ client.conn ∧ loop.clients.lookup fd' = some client' := by
  obtain ⟨hne, hold⟩ := lookup_erase_eq_some.mp hclient'
  refine ⟨?_, hold⟩
  intro hconn
  exact hne (h.unique fd' fd client.conn (hconn ▸ owner_of_lookup hold) (owner_of_lookup hclient))

/-- The moves of the connections have led to what the loop has done, but for a connection whose event is
being handled; nothing has moved that was not accepted. -/
structure Shows (cluster : Cluster (ConnectionId ι)) (thread : ι) (busy : Option ℕ) (loop : EventLoop) :
    Prop where
  entries : ∀ fd client, loop.clients.lookup fd = some client → busy ≠ some client.conn →
    cluster.connection (client.id thread fd) =
      ⟨client.server, actionsOf client.conn loop.trace, .idle⟩
  owned : ∀ fd client, loop.clients.lookup fd = some client → ∀ id : ConnectionId ι,
    id.thread = thread → id.conn = client.conn → id ≠ client.id thread fd →
      cluster.connection id = id.initial
  traces : ∀ fd conn clientIp, AcceptedAt loop.trace fd conn clientIp → busy ≠ some conn →
    (cluster.connection ⟨thread, conn, fd, clientIp⟩).trace = actionsOf conn loop.trace ∧
      ∀ id : ConnectionId ι, id.thread = thread → id.conn = conn → id ≠ ⟨thread, conn, fd, clientIp⟩ →
        cluster.connection id = id.initial
  fresh : ∀ id : ConnectionId ι, id.thread = thread →
    (∀ fd clientIp, ¬ AcceptedAt loop.trace fd id.conn clientIp) → cluster.connection id = id.initial

namespace Shows

variable {cluster cluster' : Cluster (ConnectionId ι)} {thread : ι} {busy : Option ℕ}
  {loop loop' : EventLoop} {root : Services}

theorem new (services : Services) (thread : ι) (busy : Option ℕ) (id : ℕ) (initial : Services) :
    Shows (.new services ConnectionId.fd ConnectionId.clientIp) thread busy
      (EventLoop.new id initial) where
  entries fd client h := absurd h (by simp [EventLoop.new])
  owned fd client h := absurd h (by simp [EventLoop.new])
  traces := by
    rintro fd conn clientIp ⟨now, hmem⟩
    exact absurd hmem List.not_mem_nil
  fresh _ _ _ := rfl

/-- Only the connections of the thread matter. -/
theorem of_same (h : Shows cluster thread busy loop)
    (hsame : ∀ id : ConnectionId ι, id.thread = thread →
      cluster'.connection id = cluster.connection id) :
    Shows cluster' thread busy loop := by
  refine ⟨?_, ?_, ?_, ?_⟩
  · intro fd client hclient hfree
    rw [hsame (client.id thread fd) rfl]
    exact h.entries fd client hclient hfree
  · intro fd client hclient id hthread hconn hne
    rw [hsame id hthread]
    exact h.owned fd client hclient id hthread hconn hne
  · intro fd conn clientIp haccepted hfree
    obtain ⟨htrace, hother⟩ := h.traces fd conn clientIp haccepted hfree
    rw [hsame ⟨thread, conn, fd, clientIp⟩ rfl]
    refine ⟨htrace, ?_⟩
    intro id hthread hconn hne
    rw [hsame id hthread]
    exact hother id hthread hconn hne
  · intro id hthread hnot
    rw [hsame id hthread]
    exact h.fresh id hthread hnot

/-- A move of the connection whose event is being handled. -/
theorem put [DecidableEq ι] {fd : ℕ} {client : Client} (h : Shows cluster thread (some client.conn) loop)
    (hprojects : Projects root loop) (hclient : loop.clients.lookup fd = some client) (session : Session)
    (phase : Phase) :
    Shows (cluster.put (client.id thread fd) session phase) thread (some client.conn) loop := by
  have hput {id : ConnectionId ι} (hne : id ≠ client.id thread fd) :
      (cluster.put (client.id thread fd) session phase).connection id = cluster.connection id :=
    Cluster.put_connection_of_ne session phase hne
  have hopened := hprojects.opened fd client hclient
  have hfar {id : ConnectionId ι} (hconn : id.conn ≠ client.conn) : id ≠ client.id thread fd :=
    fun heq ↦ hconn (heq ▸ rfl)
  refine ⟨?_, ?_, ?_, ?_⟩
  · intro fd' client' hclient' hfree
    have hconn : client'.conn ≠ client.conn := fun heq ↦ hfree (congrArg some heq.symm)
    rw [hput (hfar hconn)]
    exact h.entries fd' client' hclient' hfree
  · intro fd' client' hclient' id hthread hconn hne
    have hid : id ≠ client.id thread fd := by
      intro heq
      have hconn' : client'.conn = client.conn := by rw [← hconn, heq]; rfl
      have hopened' := hprojects.opened fd' client' hclient'
      obtain ⟨rfl, -⟩ := hprojects.unique _ _ _ _ _ (hconn' ▸ hopened') hopened
      obtain rfl := Option.some.inj (hclient.symm.trans hclient')
      exact hne heq
    rw [hput hid]
    exact h.owned fd' client' hclient' id hthread hconn hne
  · intro fd' conn clientIp haccepted hfree
    have hconn : conn ≠ client.conn := fun heq ↦ hfree (congrArg some heq.symm)
    obtain ⟨htrace, hother⟩ := h.traces fd' conn clientIp haccepted hfree
    rw [hput (hfar hconn)]
    refine ⟨htrace, ?_⟩
    intro id hthread hid hne
    rw [hput (hfar (hid ▸ hconn))]
    exact hother id hthread hid hne
  · intro id hthread hnot
    have hconn : id.conn ≠ client.conn := fun heq ↦ hnot fd _ (heq ▸ hopened)
    rw [hput (hfar hconn)]
    exact h.fresh id hthread hnot

/-- The handling of an event begins. -/
theorem engage (h : Shows cluster thread none loop) (conn : ℕ) :
    Shows cluster thread (some conn) loop where
  entries fd client hclient _ := h.entries fd client hclient (by simp)
  owned := h.owned
  traces fd conn clientIp haccepted _ := h.traces fd conn clientIp haccepted (by simp)
  fresh := h.fresh

/-- Calls that concern no connection. -/
theorem append (h : Shows cluster thread busy loop) (calls : List TimedCall)
    (hactions : ∀ conn, actionsOf conn calls = []) (haccepted : acceptedConns calls = [])
    (hclients : loop'.clients = loop.clients) (htrace : loop'.trace = loop.trace ++ calls) :
    Shows cluster thread busy loop' := by
  have hactionsOf (conn : ℕ) : actionsOf conn loop'.trace = actionsOf conn loop.trace := by
    rw [htrace, actionsOf_append, hactions, List.append_nil]
  have hacceptedAt (fd conn : ℕ) (clientIp : Bytes) :
      AcceptedAt loop'.trace fd conn clientIp ↔ AcceptedAt loop.trace fd conn clientIp := by
    rw [htrace]
    exact acceptedAt_append haccepted
  refine ⟨?_, ?_, ?_, ?_⟩
  · simpa only [hclients, hactionsOf] using h.entries
  · simpa only [hclients] using h.owned
  · simpa only [hactionsOf, hacceptedAt] using h.traces
  · simpa only [hacceptedAt] using h.fresh

/-- The event of a connection has been handled: its calls are in the trace, and the table keeps the
connection or has given it up. -/
theorem settle {fd : ℕ} {client : Client} (h : Shows cluster thread (some client.conn) loop)
    (hprojects : Projects root loop) (hclient : loop.clients.lookup fd = some client)
    {actions : List Action} {closing : Bool} {calls : List TimedCall}
    (hcalls : CallsFor client.conn actions closing calls) {server : HttpServer}
    (hconnection : cluster.connection (client.id thread fd) =
      ⟨server, actionsOf client.conn loop.trace ++ actions, .idle⟩)
    (hclientIp : server.clientIp = client.server.clientIp)
    (htrace : loop'.trace = loop.trace ++ calls)
    (hclients : ∀ fd' client', loop'.clients.lookup fd' = some client' →
      (fd' = fd ∧ client' = { client with server := server }) ∨
        (client'.conn ≠ client.conn ∧ loop.clients.lookup fd' = some client')) :
    Shows cluster thread none loop' := by
  have hself : actionsOf client.conn loop'.trace = actionsOf client.conn loop.trace ++ actions := by
    rw [htrace, actionsOf_append, hcalls.own]
  have hother (conn : ℕ) (hconn : conn ≠ client.conn) :
      actionsOf conn loop'.trace = actionsOf conn loop.trace := by
    rw [htrace, actionsOf_append, hcalls.others conn hconn, List.append_nil]
  have hacceptedAt (fd conn : ℕ) (clientIp : Bytes) :
      AcceptedAt loop'.trace fd conn clientIp ↔ AcceptedAt loop.trace fd conn clientIp := by
    rw [htrace]
    exact acceptedAt_append hcalls.accepted
  have hid : Client.id thread fd { client with server := server } = client.id thread fd := by
    simp only [Client.id, hclientIp]
  refine ⟨?_, ?_, ?_, ?_⟩
  · intro fd' client' hclient' _
    obtain ⟨rfl, rfl⟩ | ⟨hne, hold⟩ := hclients fd' client' hclient'
    · rw [hid, hself]
      exact hconnection
    · rw [hother client'.conn hne]
      exact h.entries fd' client' hold (fun heq ↦ hne (Option.some.inj heq).symm)
  · intro fd' client' hclient'
    obtain ⟨rfl, rfl⟩ | ⟨-, hold⟩ := hclients fd' client' hclient'
    · rw [hid]
      exact h.owned fd' client hclient
    · exact h.owned fd' client' hold
  · intro fd' conn clientIp haccepted _
    rw [hacceptedAt] at haccepted
    by_cases hconn : conn = client.conn
    · subst hconn
      have hopened := hprojects.opened fd client hclient
      obtain ⟨rfl, rfl⟩ := hprojects.unique _ _ _ _ _ haccepted hopened
      rw [hself]
      exact ⟨congrArg Connection.trace hconnection, h.owned fd' client hclient⟩
    · rw [hother conn hconn]
      exact h.traces fd' conn clientIp haccepted (fun heq ↦ hconn (Option.some.inj heq).symm)
  · intro id hthread hnot
    apply h.fresh id hthread
    intro fd clientIp haccepted
    exact hnot fd clientIp ((hacceptedAt fd id.conn clientIp).mpr haccepted)

/-! ### Accepting -/

theorem acceptOne (h : Shows cluster thread none loop) (hconsistent : loop.Consistent [])
    (hprojects : Projects root loop) (now : Time) (fd : ℕ) (clientIp : Bytes) :
    Shows cluster thread none (loop.acceptOne now fd clientIp) := by
  have hnew (id : ConnectionId ι) (hthread : id.thread = thread) (hconn : id.conn = loop.nextConn) :
      cluster.connection id = id.initial := by
    apply h.fresh id hthread
    intro fd clientIp haccepted
    have hmem := haccepted.mem_acceptedConns
    rw [hconsistent.accepted, hconn] at hmem
    exact absurd (List.mem_range.mp hmem) (lt_irrefl _)
  have hnone : actionsOf loop.nextConn loop.trace = [] := hprojects.fresh loop.nextConn le_rfl
  rw [acceptOne_eq]
  have hquiet := actionsOf_accepting loop.trace now fd loop.nextConn clientIp acceptEvents .debug
    (loop.logText (lit "新连接 fd: " ++ decimal fd))
  have hacceptedAt := acceptedAt_accepting loop.trace now fd loop.nextConn clientIp acceptEvents .debug
    (loop.logText (lit "新连接 fd: " ++ decimal fd))
  refine ⟨?_, ?_, ?_, ?_⟩
  · intro fd' client hclient _
    dsimp only at hclient ⊢
    rw [hquiet]
    obtain ⟨rfl, rfl⟩ | ⟨-, hlookup⟩ := lookup_insert_eq_some.mp hclient
    · rw [hnew _ rfl rfl, hnone]
      rfl
    · exact h.entries fd' client hlookup (by simp)
  · intro fd' client hclient id hthread hconn hne
    dsimp only at hclient
    obtain ⟨rfl, rfl⟩ | ⟨-, hlookup⟩ := lookup_insert_eq_some.mp hclient
    · exact hnew id hthread hconn
    · exact h.owned fd' client hlookup id hthread hconn hne
  · intro fd' conn clientIp' haccepted _
    dsimp only at haccepted ⊢
    rw [hacceptedAt] at haccepted
    rw [hquiet]
    obtain hold | ⟨rfl, rfl, rfl⟩ := haccepted
    · exact h.traces fd' conn clientIp' hold (by simp)
    · rw [hnew _ rfl rfl, hnone]
      exact ⟨rfl, fun id hthread hconn _ ↦ hnew id hthread hconn⟩
  · intro id hthread hnot
    apply h.fresh id hthread
    intro fd' clientIp' haccepted
    exact hnot fd' clientIp' ((hacceptedAt fd' id.conn clientIp').mpr (.inl haccepted))

theorem acceptConnection (h : Shows cluster thread none loop) (hconsistent : loop.Consistent [])
    (hprojects : Projects root loop) (results : List AcceptResult) :
    Shows cluster thread none (acceptConnection results loop) := by
  induction results generalizing loop with
  | nil => exact h
  | cons result results ih =>
    cases result with
    | connected now fd clientIp =>
      exact ih (h.acceptOne hconsistent hprojects now fd clientIp)
        (hconsistent.acceptOne now fd clientIp) (hprojects.acceptOne hconsistent now fd clientIp)
    | failed errno =>
      unfold EventLoop.acceptConnection
      split
      · exact h
      · exact h.append [⟨loop.now, _⟩] (fun _ ↦ rfl) rfl rfl rfl

/-! ### Closing -/

variable [DecidableEq ι]

/-- A connection is taken out of the table. -/
theorem close (h : Shows cluster thread none loop) {pending : List (TimerNode TimeoutCallback)}
    (hconsistent : loop.Consistent pending) (hprojects : Projects root loop) {fd : ℕ} {client : Client}
    (hclient : loop.clients.lookup fd = some client) {calls : List TimedCall}
    (hcalls : CallsFor client.conn [.closeConnection] true calls)
    (htrace : loop'.trace = loop.trace ++ calls)
    (hclients : loop'.clients = loop.clients.erase fd) :
    Shows (cluster.step (.close (client.id thread fd))) thread none loop' := by
  obtain ⟨-, hopen⟩ := hconsistent.server fd client hclient
  rw [Cluster.step_close (h.entries fd client hclient (by simp)) hopen]
  have hengaged : Shows (cluster.put (client.id thread fd) ⟨{ client.server with closed := true },
      cluster.services, actionsOf client.conn loop.trace ++ [.closeConnection]⟩ .idle) thread
        (some client.conn) loop := (h.engage client.conn).put hprojects hclient _ _
  apply hengaged.settle hprojects hclient hcalls (Cluster.put_connection_self _ _) rfl htrace
  intro fd' client' hclient'
  rw [hclients] at hclient'
  exact .inr (hconsistent.other_of_erase hclient hclient')

/-- The expired timers close their connections, one after the other. -/
theorem foldl_fire (h : Shows cluster thread none loop) {pending : List (TimerNode TimeoutCallback)}
    (hconsistent : loop.Consistent pending) (hprojects : Projects root loop) :
    ∃ moves : List (Move (ConnectionId ι)), (∀ move ∈ moves, move.Outside thread) ∧
      Shows (run Cluster.step cluster moves) thread none
        (pending.foldl (TcpTimer.fire EventLoop.timer setTimer timeoutCallback) loop) := by
  induction pending generalizing cluster loop with
  | nil => exact ⟨[], by simp, h⟩
  | cons node pending ih =>
    obtain ⟨client, hclient, hguards⟩ := hconsistent.client_of_pending List.mem_cons_self
    have hfired : Shows (cluster.step (.close (client.id thread node.fd))) thread none
        (TcpTimer.fire EventLoop.timer setTimer timeoutCallback loop node) := by
      rw [hconsistent.fire_eq hclient hguards]
      apply h.close hconsistent hprojects hclient
        ((callsFor_timeout loop node.fd client.conn).append
          (callsFor_close loop node.fd client.conn))
      · rfl
      · rfl
    obtain ⟨moves, hmoves, hshows⟩ := ih hfired hconsistent.fire (hprojects.fire hconsistent)
    refine ⟨.close (client.id thread node.fd) :: moves, ?_, hshows⟩
    exact List.forall_mem_cons.mpr ⟨rfl, hmoves⟩

theorem checkExpired (h : Shows cluster thread none loop) (hconsistent : loop.Consistent [])
    (hprojects : Projects root loop) (now : Time) :
    ∃ moves : List (Move (ConnectionId ι)), (∀ move ∈ moves, move.Outside thread) ∧
      Shows (run Cluster.step cluster moves) thread none (loop.checkExpired now) := by
  apply foldl_fire _ (hconsistent.scan now)
  · exact hprojects.append [] (fun _ ↦ rfl) rfl rfl rfl rfl (List.append_nil _).symm
  · exact h.append [] (fun _ ↦ rfl) rfl rfl (List.append_nil _).symm

/-! ### The end of the loop -/

variable (loop thread) in
/-- The connections of the table. -/
def ids : List (ConnectionId ι) := loop.clients.entries.map fun entry ↦ entry.2.id thread entry.1

omit [DecidableEq ι] in
theorem conns_ids : (ids thread loop).map ConnectionId.conn =
    loop.clients.entries.map fun entry ↦ entry.2.conn := by
  simp [ids, Function.comp_def, Client.id]

omit [DecidableEq ι] in
theorem connection_of_mem_entries (h : Shows cluster thread none loop) {entry : (_ : ℕ) × Client}
    (hmem : entry ∈ loop.clients.entries) :
    cluster.connection (entry.2.id thread entry.1) =
      ⟨entry.2.server, actionsOf entry.2.conn loop.trace, .idle⟩ :=
  h.entries entry.1 entry.2 (AList.mem_lookup_iff.mpr hmem) (by simp)

/-- Closing the connections of the table changes no other connection. -/
theorem connection_closeAll (h : Shows cluster thread none loop) (hconsistent : loop.Consistent [])
    (id : ConnectionId ι) :
    (run Cluster.step cluster ((ids thread loop).map .close)).connection id =
      if id ∈ ids thread loop then
        ⟨{ (cluster.connection id).server with closed := true },
          (cluster.connection id).trace ++ [.closeConnection], .idle⟩
      else cluster.connection id := by
  have hnodup : ((ids thread loop).map ConnectionId.conn).Nodup := by
    rw [conns_ids]
    exact hconsistent.nodup_conns
  apply Cluster.connection_closes (.of_map ConnectionId.conn hnodup)
  intro id hid
  obtain ⟨entry, hmem, rfl⟩ := List.mem_map.mp hid
  rw [h.connection_of_mem_entries hmem]
  exact ⟨rfl, (hconsistent.server entry.1 entry.2 (AList.mem_lookup_iff.mpr hmem)).2⟩

/-- A connection of the table has been closed, and nothing else has its number. -/
theorem closeAll_entry (h : Shows cluster thread none loop) (hconsistent : loop.Consistent [])
    {entry : (_ : ℕ) × Client} (hmem : entry ∈ loop.clients.entries) :
    ((run Cluster.step cluster ((ids thread loop).map .close)).connection
        (entry.2.id thread entry.1)).trace =
      actionsOf entry.2.conn loop.trace ++ [.closeConnection] ∧
    ∀ id : ConnectionId ι, id.thread = thread → id.conn = entry.2.conn →
      id ≠ entry.2.id thread entry.1 →
        (run Cluster.step cluster ((ids thread loop).map .close)).connection id = id.initial := by
  have hid : entry.2.id thread entry.1 ∈ ids thread loop :=
    List.mem_map_of_mem hmem
  refine ⟨?_, ?_⟩
  · rw [h.connection_closeAll hconsistent, if_pos hid, h.connection_of_mem_entries hmem]
  · intro id hthread hconn hne
    have hnotMem : id ∉ ids thread loop := by
      intro hid'
      obtain ⟨entry', hmem', rfl⟩ := List.mem_map.mp hid'
      obtain rfl := List.inj_on_of_nodup_map hconsistent.nodup_conns hmem' hmem hconn
      exact hne rfl
    rw [h.connection_closeAll hconsistent, if_neg hnotMem]
    exact h.owned entry.1 entry.2 (AList.mem_lookup_iff.mpr hmem) id hthread hconn hne

/-- A connection that is not in the table stays as it is. -/
theorem closeAll_other (h : Shows cluster thread none loop) (hconsistent : loop.Consistent [])
    {id : ConnectionId ι} (hconn : id.conn ∉ loop.clients.entries.map fun entry ↦ entry.2.conn) :
    (run Cluster.step cluster ((ids thread loop).map .close)).connection id =
      cluster.connection id := by
  have hid : id ∉ ids thread loop := by
    intro hid
    apply hconn
    rw [← @conns_ids _ thread loop]
    exact List.mem_map_of_mem hid
  rw [h.connection_closeAll hconsistent, if_neg hid]

/-- The end of the loop closes every connection of the table. -/
theorem closeAllConnections (h : Shows cluster thread none loop) (hconsistent : loop.Consistent [])
    (hprojects : Projects root loop) :
    ∃ moves : List (Move (ConnectionId ι)), (∀ move ∈ moves, move.Outside thread) ∧
      Shows (run Cluster.step cluster moves) thread none loop.closeAllConnections := by
  refine ⟨(ids thread loop).map .close, ?_, ?_⟩
  · intro move hmove
    obtain ⟨id, hid, rfl⟩ := List.mem_map.mp hmove
    obtain ⟨entry, -, rfl⟩ := List.mem_map.mp hid
    rfl
  · have howner : ∀ entry ∈ loop.clients.entries, loop.owner entry.1 = some entry.2.conn :=
      fun entry ↦ owner_of_mem_entries
    have hopened {entry : (_ : ℕ) × Client} (hmem : entry ∈ loop.clients.entries) :=
      hprojects.opened entry.1 entry.2 (AList.mem_lookup_iff.mpr hmem)
    rw [closeAllConnections_eq]
    refine ⟨?_, ?_, ?_, ?_⟩
    · intro fd client hclient
      exact absurd hclient (by simp)
    · intro fd client hclient
      exact absurd hclient (by simp)
    · intro fd conn clientIp haccepted _
      dsimp only at haccepted ⊢
      rw [acceptedAt_append (Projects.acceptedConns_farewell _)] at haccepted
      rw [actionsOf_append, Projects.actionsOf_farewell howner]
      by_cases hmem : conn ∈ loop.clients.entries.map fun entry ↦ entry.2.conn
      · rw [List.count_eq_one_of_mem hconsistent.nodup_conns hmem]
        obtain ⟨entry, hentry, rfl⟩ := List.mem_map.mp hmem
        obtain ⟨rfl, rfl⟩ := hprojects.unique _ _ _ _ _ haccepted (hopened hentry)
        exact h.closeAll_entry hconsistent hentry
      · obtain ⟨htrace, hother⟩ := h.traces fd conn clientIp haccepted (by simp)
        rw [List.count_eq_zero_of_not_mem hmem, List.replicate_zero, List.append_nil]
        refine ⟨(congrArg Connection.trace (h.closeAll_other hconsistent hmem)).trans htrace, ?_⟩
        intro id hthread hconn hne
        rw [h.closeAll_other hconsistent (hconn ▸ hmem)]
        exact hother id hthread hconn hne
    · intro id hthread hnot
      dsimp only at hnot
      simp only [acceptedAt_append (Projects.acceptedConns_farewell _)] at hnot
      have hconn : id.conn ∉ loop.clients.entries.map fun entry ↦ entry.2.conn := by
        intro hmem
        obtain ⟨entry, hentry, heq⟩ := List.mem_map.mp hmem
        exact hnot entry.1 entry.2.server.clientIp (heq ▸ hopened hentry)
      rw [h.closeAll_other hconsistent hconn]
      exact h.fresh id hthread hnot

end Shows

end EventLoop

end WebServer
