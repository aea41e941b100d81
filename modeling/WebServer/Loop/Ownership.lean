import WebServer.Connection.ClosesLast
import WebServer.Foundation.Execution
import WebServer.Loop.EventLoop

/-!
# Descriptors and their owners

Descriptor numbers are used again, and timers, events and connection objects mention them for longer
than the connections live. `EventLoop.Consistent` ties the parts of a loop together: every entry of
`_clients` is an open connection with its own descriptor and number, it has exactly one armed timer,
which names this descriptor and this connection, and no connection that was closed is left in the
table. While expired timers are fired, the invariant carries the ones still to come.
-/

namespace WebServer

open Bytes Execution

/-! ## What a trace says about connections -/

namespace LoopCall

/-- A call on a socket is made on behalf of the connection that owns its descriptor. -/
def IsOwned : LoopCall → Prop
  | connection _ conn owner _ | timeout _ conn owner | epollDel _ conn owner | close _ conn owner =>
    owner = some conn
  | accept .. | epollAdd .. | log .. => True

/-- The connection that a call accepts. -/
def acceptedConn : LoopCall → Option ℕ
  | accept _ conn _ => some conn
  | _ => none

/-- The connection whose socket a call closes. -/
def closedConn : LoopCall → Option ℕ
  | close _ _ owner => owner
  | _ => none

end LoopCall

def acceptedConns (trace : List TimedCall) : List ℕ :=
  trace.filterMap fun timed ↦ timed.call.acceptedConn

def closedConns (trace : List TimedCall) : List ℕ :=
  trace.filterMap fun timed ↦ timed.call.closedConn

@[simp]
theorem acceptedConns_append (first second : List TimedCall) :
    acceptedConns (first ++ second) = acceptedConns first ++ acceptedConns second :=
  List.filterMap_append

@[simp]
theorem closedConns_append (first second : List TimedCall) :
    closedConns (first ++ second) = closedConns first ++ closedConns second :=
  List.filterMap_append

/-- A call that neither accepts nor closes a connection, and is owned. -/
structure TimedCall.IsRoutine (timed : TimedCall) : Prop where
  owned : timed.call.IsOwned
  acceptedConn : timed.call.acceptedConn = none
  closedConn : timed.call.closedConn = none

theorem acceptedConns_of_isRoutine {calls : List TimedCall}
    (h : ∀ timed ∈ calls, timed.IsRoutine) : acceptedConns calls = [] :=
  List.filterMap_eq_nil_iff.mpr fun timed hmem ↦ (h timed hmem).acceptedConn

theorem closedConns_of_isRoutine {calls : List TimedCall}
    (h : ∀ timed ∈ calls, timed.IsRoutine) : closedConns calls = [] :=
  List.filterMap_eq_nil_iff.mpr fun timed hmem ↦ (h timed hmem).closedConn

namespace EventLoop

/-! ## The invariant -/

/-- What is said about the calls made so far: all of them are owned, no two `accept` calls share a
number, and no socket is closed twice. -/
structure Sound (trace : List TimedCall) : Prop where
  owned : ∀ timed ∈ trace, timed.call.IsOwned
  accepted : (acceptedConns trace).Nodup
  closed : (closedConns trace).Nodup

/-- The timer of a connection names it, and is due one timeout after the `accept`. -/
def Guards (fd : ℕ) (client : Client) (node : TimerNode TimeoutCallback) : Prop :=
  node.callback = ⟨fd, client.conn⟩ ∧
    node.expireTime = client.acceptedAt + Time.milliseconds keepAliveTimeoutMs

/-- The table, the timers and the trace agree; `pending` are the expired timers that are still to be
fired. -/
structure Consistent (loop : EventLoop) (pending : List (TimerNode TimeoutCallback)) : Prop where
  timer : loop.timer.Agrees pending
  pending_live : ∀ node ∈ pending, node.id ∉ loop.timer.deleted
  armed : ∀ fd, Option.Rel (Guards fd) (loop.clients.lookup fd) (loop.timer.timerMap.lookup fd)
  server : ∀ fd client, loop.clients.lookup fd = some client →
    client.server.fd = fd ∧ client.server.closed = false
  unique : ∀ fd fd' conn, loop.owner fd = some conn → loop.owner fd' = some conn → fd = fd'
  still_open : ∀ fd conn, loop.owner fd = some conn →
    conn < loop.nextConn ∧ conn ∉ closedConns loop.trace
  owned : ∀ timed ∈ loop.trace, timed.call.IsOwned
  accepted : acceptedConns loop.trace = List.range loop.nextConn
  closed : (closedConns loop.trace).Nodup
  closed_lt : ∀ conn ∈ closedConns loop.trace, conn < loop.nextConn

section Table

variable {loop : EventLoop} {fd fd' : ℕ} {client : Client}

theorem owner_eq_some {conn : ℕ} : loop.owner fd = some conn ↔
    ∃ client, loop.clients.lookup fd = some client ∧ client.conn = conn :=
  Option.map_eq_some_iff

theorem owner_of_lookup (h : loop.clients.lookup fd = some client) :
    loop.owner fd = some client.conn :=
  owner_eq_some.mpr ⟨client, h, rfl⟩

theorem lookup_erase_eq_some {clients : AList fun _ : ℕ ↦ Client} :
    (clients.erase fd').lookup fd = some client ↔
      fd ≠ fd' ∧ clients.lookup fd = some client := by
  by_cases hfd : fd = fd'
  · subst hfd
    simp
  · simp [AList.lookup_erase_ne hfd, hfd]

end Table

namespace Consistent

variable {loop loop' : EventLoop} {pending pending' : List (TimerNode TimeoutCallback)}

theorem sound (h : loop.Consistent pending) : Sound loop.trace :=
  ⟨h.owned, h.accepted ▸ List.nodup_range, h.closed⟩

theorem new (id : ℕ) (services : Services) : (EventLoop.new id services).Consistent [] where
  timer := TcpTimer.agrees_new
  pending_live := by simp
  armed fd := Option.Rel.none
  server fd client hlookup := absurd hlookup (by simp [EventLoop.new])
  unique fd fd' conn howner := absurd howner (by simp [EventLoop.new, owner])
  still_open fd conn howner := absurd howner (by simp [EventLoop.new, owner])
  owned := by simp [EventLoop.new]
  accepted := rfl
  closed := List.nodup_nil
  closed_lt := by simp [EventLoop.new, closedConns]

/-- More routine calls, and changes that do not concern the connections. -/
theorem append (h : loop.Consistent pending) (calls : List TimedCall)
    (hcalls : ∀ timed ∈ calls, timed.IsRoutine) (hclients : loop'.clients = loop.clients)
    (htimer : loop'.timer = loop.timer) (hnext : loop'.nextConn = loop.nextConn)
    (htrace : loop'.trace = loop.trace ++ calls) : loop'.Consistent pending := by
  have haccepted : acceptedConns loop'.trace = acceptedConns loop.trace := by
    rw [htrace, acceptedConns_append, acceptedConns_of_isRoutine hcalls, List.append_nil]
  have hclosed : closedConns loop'.trace = closedConns loop.trace := by
    rw [htrace, closedConns_append, closedConns_of_isRoutine hcalls, List.append_nil]
  have howner : loop'.owner = loop.owner := by
    funext fd
    rw [owner, owner, hclients]
  refine ⟨htimer ▸ h.timer, htimer ▸ h.pending_live, ?_, ?_, ?_, ?_, ?_, ?_, ?_, ?_⟩
  · rw [hclients, htimer]
    exact h.armed
  · rw [hclients]
    exact h.server
  · rw [howner]
    exact h.unique
  · rw [howner, hclosed, hnext]
    exact h.still_open
  · rw [htrace]
    intro timed hmem
    rcases List.mem_append.mp hmem with hold | hnew
    · exact h.owned timed hold
    · exact (hcalls timed hnew).owned
  · rw [haccepted, hnext]
    exact h.accepted
  · rw [hclosed]
    exact h.closed
  · rw [hclosed, hnext]
    exact h.closed_lt

/-- A connection leaves the table together with its timer, and its socket is closed. -/
theorem detach (h : loop.Consistent pending) {fd : ℕ} {client : Client}
    (hclient : loop.clients.lookup fd = some client) {calls : List TimedCall}
    (hclients : loop'.clients = loop.clients.erase fd) (hnext : loop'.nextConn = loop.nextConn)
    (htrace : loop'.trace = loop.trace ++ calls)
    (htimer : loop'.timer.Agrees pending')
    (hlive : ∀ node ∈ pending', node.id ∉ loop'.timer.deleted)
    (hmap : loop'.timer.timerMap = loop.timer.timerMap.erase fd)
    (howned : ∀ timed ∈ calls, timed.call.IsOwned) (haccepted : acceptedConns calls = [])
    (hclosed : closedConns calls = [client.conn]) : loop'.Consistent pending' := by
  have howner : ∀ fd' conn, loop'.owner fd' = some conn → fd' ≠ fd ∧ loop.owner fd' = some conn := by
    intro fd' conn hconn
    obtain ⟨other, hother, rfl⟩ := owner_eq_some.mp hconn
    rw [hclients, lookup_erase_eq_some] at hother
    exact ⟨hother.1, owner_of_lookup hother.2⟩
  have hclosed' : closedConns loop'.trace = closedConns loop.trace ++ [client.conn] := by
    rw [htrace, closedConns_append, hclosed]
  obtain ⟨hlt, hopen⟩ := h.still_open fd client.conn (owner_of_lookup hclient)
  refine ⟨htimer, hlive, ?_, ?_, ?_, ?_, ?_, ?_, ?_, ?_⟩
  · intro fd'
    rw [hclients, hmap]
    by_cases hfd : fd' = fd
    · rw [hfd, AList.lookup_erase, AList.lookup_erase]
      exact .none
    · rw [AList.lookup_erase_ne hfd, AList.lookup_erase_ne hfd]
      exact h.armed fd'
  · intro fd' other hother
    rw [hclients, lookup_erase_eq_some] at hother
    exact h.server fd' other hother.2
  · intro fd₁ fd₂ conn h₁ h₂
    exact h.unique fd₁ fd₂ conn (howner fd₁ conn h₁).2 (howner fd₂ conn h₂).2
  · intro fd' conn hconn
    obtain ⟨hfd, hconn⟩ := howner fd' conn hconn
    obtain ⟨hlt', hopen'⟩ := h.still_open fd' conn hconn
    refine ⟨hnext ▸ hlt', ?_⟩
    rw [hclosed', List.mem_append, List.mem_singleton, not_or]
    refine ⟨hopen', fun heq ↦ hfd (h.unique fd' fd conn hconn ?_)⟩
    rw [heq]
    exact owner_of_lookup hclient
  · rw [htrace]
    intro timed hmem
    rcases List.mem_append.mp hmem with hold | hnew
    · exact h.owned timed hold
    · exact howned timed hnew
  · rw [htrace, acceptedConns_append, haccepted, List.append_nil, hnext]
    exact h.accepted
  · rw [hclosed', List.nodup_append]
    refine ⟨h.closed, List.nodup_singleton _, ?_⟩
    intro conn hmem other hother heq
    rw [List.mem_singleton.mp hother] at heq
    exact hopen (heq ▸ hmem)
  · rw [hclosed', hnext]
    intro conn hmem
    rcases List.mem_append.mp hmem with hold | hnew
    · exact h.closed_lt conn hold
    · exact List.mem_singleton.mp hnew ▸ hlt

end Consistent

/-! ## Closing -/

section Close

variable {loop : EventLoop} {fd : ℕ} {client : Client}

/-- What `closeConnection` does to a connection it finds. -/
theorem closeConnection_eq (conn : ℕ) (h : loop.clients.lookup fd = some client) :
    loop.closeConnection conn fd =
      { loop with
        clients := loop.clients.erase fd
        timer := loop.timer.removeTimer fd
        trace := loop.trace ++ [⟨loop.now, .epollDel fd conn (some client.conn)⟩,
          ⟨loop.now, .close fd conn (some client.conn)⟩,
          ⟨loop.now, .log .debug (loop.logText (lit "连接关闭 fd: " ++ decimal fd))⟩] } := by
  unfold closeConnection
  rw [h]
  simp [setClients, setTimer, emit, log, logText]

/-- After a close there is no object left to store. -/
theorem storeServer_closeConnection (conn : ℕ) (h : loop.clients.lookup fd = some client)
    (server : HttpServer) :
    (loop.closeConnection conn fd).storeServer fd client.conn server =
      loop.closeConnection conn fd := by
  rw [closeConnection_eq conn h]
  simp [EventLoop.storeServer]

/-- A close on behalf of the owner. -/
theorem Consistent.closeConnection (h : loop.Consistent [])
    (hclient : loop.clients.lookup fd = some client) :
    (loop.closeConnection client.conn fd).Consistent [] := by
  rw [closeConnection_eq client.conn hclient]
  exact h.detach hclient rfl rfl rfl (h.timer.removeTimer fd) (by simp)
    (TcpTimer.timerMap_removeTimer _ fd) (by simp [LoopCall.IsOwned]) rfl rfl

end Close

/-! ## Timers -/

section Expiry

variable {loop : EventLoop} {node : TimerNode TimeoutCallback}
  {pending : List (TimerNode TimeoutCallback)}

/-- A pending timer belongs to a connection of the table. -/
theorem Consistent.client_of_pending (h : loop.Consistent pending) (hnode : node ∈ pending) :
    ∃ client, loop.clients.lookup node.fd = some client ∧ Guards node.fd client node := by
  have hmapped := h.timer.mapped node (List.mem_append_right _ hnode) (h.pending_live node hnode)
  have harmed := h.armed node.fd
  rw [hmapped] at harmed
  cases hclient : loop.clients.lookup node.fd with
  | none =>
    rw [hclient] at harmed
    cases harmed
  | some client =>
    rw [hclient] at harmed
    cases harmed with
    | some hguards => exact ⟨client, rfl, hguards⟩

/-- Firing a pending timer closes the connection it was set up for. -/
theorem Consistent.fire_eq (h : loop.Consistent (node :: pending)) {client : Client}
    (hclient : loop.clients.lookup node.fd = some client) (hguards : Guards node.fd client node) :
    TcpTimer.fire EventLoop.timer setTimer timeoutCallback loop node =
      { loop with
        clients := loop.clients.erase node.fd
        timer := loop.timer.unmap node.fd
        trace := loop.trace ++ [⟨loop.now, .timeout node.fd client.conn (some client.conn)⟩,
          ⟨loop.now, .log .info (loop.logText (lit "连接超时关闭 fd: " ++ decimal node.fd))⟩,
          ⟨loop.now, .epollDel node.fd client.conn (some client.conn)⟩,
          ⟨loop.now, .close node.fd client.conn (some client.conn)⟩,
          ⟨loop.now, .log .debug (loop.logText (lit "连接关闭 fd: " ++ decimal node.fd))⟩] } := by
  have hlive : (loop.timer.unmap node.fd).isDeleted node = false :=
    decide_eq_false (h.pending_live node (by simp))
  unfold TcpTimer.fire
  simp only [setTimer, hlive, Bool.false_eq_true, if_false, hguards.1]
  unfold timeoutCallback
  dsimp only
  refine (closeConnection_eq client.conn (by exact hclient)).trans ?_
  simp only [EventLoop.log, emit, owner, hclient, Option.map_some, TcpTimer.removeTimer_unmap,
    List.append_assoc, List.cons_append, List.nil_append, logText]

theorem Consistent.fire (h : loop.Consistent (node :: pending)) :
    (TcpTimer.fire EventLoop.timer setTimer timeoutCallback loop node).Consistent pending := by
  obtain ⟨client, hclient, hguards⟩ := h.client_of_pending List.mem_cons_self
  rw [h.fire_eq hclient hguards]
  exact h.detach hclient rfl rfl rfl (h.timer.unmap (h.pending_live node (by simp)))
    (fun other hother ↦ h.pending_live other (List.mem_cons_of_mem _ hother)) rfl
    (by simp [LoopCall.IsOwned]) rfl rfl

theorem Consistent.foldl_fire (h : loop.Consistent pending) :
    (pending.foldl (TcpTimer.fire EventLoop.timer setTimer timeoutCallback) loop).Consistent
      [] := by
  induction pending generalizing loop with
  | nil => exact h
  | cons node pending ih => exact ih h.fire

/-- When the expired timers have been taken out of the set, they are pending. -/
theorem Consistent.scan (h : loop.Consistent []) (now : Time) :
    Consistent
      (setTimer { loop with now := now }
        { loop.timer with timerSet := (loop.timer.scan now loop.timer.timerSet).2 })
      (loop.timer.scan now loop.timer.timerSet).1 where
  timer := h.timer.scan now
  pending_live node hmem := ((TcpTimer.scan_spec _ now _).1 node hmem).1
  armed := h.armed
  server := h.server
  unique := h.unique
  still_open := h.still_open
  owned := h.owned
  accepted := h.accepted
  closed := h.closed
  closed_lt := h.closed_lt

theorem Consistent.checkExpired (h : loop.Consistent []) (now : Time) :
    (loop.checkExpired now).Consistent [] :=
  (h.scan now).foldl_fire

end Expiry

/-! ## Accepting -/

section Accept

variable {loop : EventLoop}

theorem lookup_insert_eq_some {clients : AList fun _ : ℕ ↦ Client} {fd fd' : ℕ}
    {client client' : Client} :
    (clients.insert fd client).lookup fd' = some client' ↔
      (fd' = fd ∧ client = client') ∨ (fd' ≠ fd ∧ clients.lookup fd' = some client') := by
  by_cases hfd : fd' = fd
  · subst hfd
    simp
  · simp [AList.lookup_insert_ne hfd, hfd]

/-- A turn of the accept loop enters the connection in the table and arms its timer. -/
theorem acceptOne_eq (loop : EventLoop) (now : Time) (fd : ℕ) (clientIp : Bytes) :
    loop.acceptOne now fd clientIp =
      { loop with
        now := now
        nextConn := loop.nextConn + 1
        clients := loop.clients.insert fd ⟨loop.nextConn, now, HttpServer.new fd clientIp⟩
        timer := loop.timer.addTimer now fd keepAliveTimeoutMs ⟨fd, loop.nextConn⟩
        trace := loop.trace ++ [⟨now, .accept fd loop.nextConn clientIp⟩,
          ⟨now, .epollAdd fd loop.nextConn acceptEvents⟩,
          ⟨now, .log .debug (loop.logText (lit "新连接 fd: " ++ decimal fd))⟩] } := by
  simp [acceptOne, setClients, setupTimer, setTimer, emit, EventLoop.log, logText]

theorem Consistent.acceptOne (h : loop.Consistent []) (now : Time) (fd : ℕ) (clientIp : Bytes) :
    (loop.acceptOne now fd clientIp).Consistent [] := by
  rw [acceptOne_eq]
  have howner : ∀ fd' conn, ((loop.clients.insert fd
      (⟨loop.nextConn, now, HttpServer.new fd clientIp⟩ : Client)).lookup fd').map Client.conn =
        some conn → (fd' = fd ∧ conn = loop.nextConn) ∨ loop.owner fd' = some conn := by
    intro fd' conn hconn
    obtain ⟨other, hother, rfl⟩ := Option.map_eq_some_iff.mp hconn
    rcases lookup_insert_eq_some.mp hother with ⟨rfl, rfl⟩ | ⟨-, hother⟩
    · exact .inl ⟨rfl, rfl⟩
    · exact .inr (owner_of_lookup hother)
  have hclosed : ∀ calls : List TimedCall, closedConns calls = [] →
      closedConns (loop.trace ++ calls) = closedConns loop.trace := by
    intro calls hcalls
    rw [closedConns_append, hcalls, List.append_nil]
  refine ⟨h.timer.addTimer .., by simp, ?_, ?_, ?_, ?_, ?_, ?_, ?_, ?_⟩
  · intro fd'
    change Option.Rel _ ((loop.clients.insert fd _).lookup fd')
      ((loop.timer.timerMap.insert fd _).lookup fd')
    by_cases hfd : fd' = fd
    · subst hfd
      rw [AList.lookup_insert, AList.lookup_insert]
      exact .some ⟨rfl, rfl⟩
    · rw [AList.lookup_insert_ne hfd, AList.lookup_insert_ne hfd]
      exact h.armed fd'
  · intro fd' other hother
    rcases lookup_insert_eq_some.mp hother with ⟨rfl, rfl⟩ | ⟨-, hother⟩
    · exact ⟨rfl, rfl⟩
    · exact h.server fd' other hother
  · intro fd₁ fd₂ conn h₁ h₂
    rcases howner fd₁ conn h₁ with ⟨hfd₁, hconn₁⟩ | hold₁
    · rcases howner fd₂ conn h₂ with ⟨hfd₂, -⟩ | hold₂
      · rw [hfd₁, hfd₂]
      · exact absurd hconn₁ (h.still_open fd₂ conn hold₂).1.ne
    · rcases howner fd₂ conn h₂ with ⟨-, hconn₂⟩ | hold₂
      · exact absurd hconn₂ (h.still_open fd₁ conn hold₁).1.ne
      · exact h.unique fd₁ fd₂ conn hold₁ hold₂
  · intro fd' conn hconn
    dsimp only
    rw [hclosed _ rfl]
    rcases howner fd' conn hconn with ⟨-, rfl⟩ | hconn
    · exact ⟨Nat.lt_succ_self _, fun hmem ↦ (h.closed_lt _ hmem).ne rfl⟩
    · exact ⟨Nat.lt_succ_of_lt (h.still_open fd' conn hconn).1, (h.still_open fd' conn hconn).2⟩
  · intro timed hmem
    rcases List.mem_append.mp hmem with hold | hnew
    · exact h.owned timed hold
    · simp only [List.mem_cons, List.not_mem_nil, or_false] at hnew
      rcases hnew with rfl | rfl | rfl <;> trivial
  · rw [acceptedConns_append, h.accepted, List.range_succ]
    rfl
  · rw [hclosed _ rfl]
    exact h.closed
  · rw [hclosed _ rfl]
    exact fun conn hmem ↦ Nat.lt_succ_of_lt (h.closed_lt conn hmem)

theorem Consistent.acceptConnection (h : loop.Consistent []) (results : List AcceptResult) :
    (acceptConnection results loop).Consistent [] := by
  induction results generalizing loop with
  | nil => exact h
  | cons result results ih =>
    cases result with
    | connected now fd clientIp => exact ih (h.acceptOne now fd clientIp)
    | failed errno =>
      unfold EventLoop.acceptConnection
      split
      · exact h
      · exact h.append [⟨loop.now, _⟩] (by simpa using ⟨trivial, rfl, rfl⟩) rfl rfl rfl
          rfl

end Accept

/-! ## Events of connections -/

section Events

variable {loop : EventLoop} {fd : ℕ} {client : Client}

theorem handlers_closesLast (readiness : Readiness) {session : Session}
    (hopen : session.server.closed = false) :
    Session.ClosesLast session (handlers readiness session) := by
  have hread : Session.ClosesLast session
      (if readiness.events.epollin ∨ readiness.events.epollrdhup then
        session.handleRead readiness.recvs readiness.envs readiness.sends else session) := by
    split
    · exact Session.handleRead_closesLast hopen ..
    · exact .of_extends rfl hopen (Session.Extends.refl session)
  unfold handlers
  dsimp only
  generalize (if readiness.events.epollin ∨ readiness.events.epollrdhup then
    session.handleRead readiness.recvs readiness.envs readiness.sends else session) = read at hread
  split
  · cases hclosed : read.server.closed with
    | true => rwa [Session.handleWrite_of_closed hclosed]
    | false => exact hread.trans hclosed (Session.handleWrite_closesLast hclosed _)
  · exact hread

/-- The loop after calls of a connection other than a close. -/
def record (loop : EventLoop) (fd conn : ℕ) (actions : List Action) : EventLoop :=
  { loop with
    trace := loop.trace ++ actions.map fun action ↦
      ⟨loop.now, .connection fd conn (loop.owner fd) action⟩ }

theorem foldl_perform_of_ne (loop : EventLoop) (fd conn : ℕ) {actions : List Action}
    (h : ∀ action ∈ actions, action ≠ .closeConnection) :
    actions.foldl (perform fd conn) loop = loop.record fd conn actions := by
  induction actions generalizing loop with
  | nil => simp [record]
  | cons action actions ih =>
    obtain ⟨haction, hactions⟩ := List.forall_mem_cons.mp h
    have hperform : perform fd conn loop action =
        loop.emit (.connection fd conn (loop.owner fd) action) := by
      cases action <;> first | rfl | exact absurd rfl haction
    rw [List.foldl_cons, hperform, ih _ hactions]
    simp [record, emit, owner]

theorem Consistent.record (h : loop.Consistent [])
    (hclient : loop.clients.lookup fd = some client) (actions : List Action) :
    (loop.record fd client.conn actions).Consistent [] := by
  refine h.append (actions.map fun action ↦
    ⟨loop.now, .connection fd client.conn (loop.owner fd) action⟩) ?_ rfl rfl rfl rfl
  intro timed hmem
  obtain ⟨action, -, rfl⟩ := List.mem_map.mp hmem
  exact ⟨owner_of_lookup hclient, rfl, rfl⟩

/-- The object of a connection changes, and is still open. -/
theorem Consistent.storeServer (h : loop.Consistent [])
    (hclient : loop.clients.lookup fd = some client) {server : HttpServer}
    (hfd : server.fd = fd) (hopen : server.closed = false) :
    (loop.storeServer fd client.conn server).Consistent [] := by
  have howner : (loop.setClients (loop.clients.insert fd { client with server := server })).owner =
      loop.owner := by
    funext fd'
    unfold owner setClients
    by_cases hfd' : fd' = fd
    · rw [hfd', AList.lookup_insert, hclient]
      rfl
    · rw [AList.lookup_insert_ne hfd']
  unfold EventLoop.storeServer
  rw [hclient]
  simp only [if_true]
  refine ⟨h.timer, h.pending_live, ?_, ?_, ?_, ?_, h.owned, h.accepted, h.closed, h.closed_lt⟩
  · intro fd'
    have harmed := h.armed fd'
    change Option.Rel _ ((loop.clients.insert fd _).lookup fd') _
    by_cases hfd' : fd' = fd
    · subst hfd'
      rw [hclient] at harmed
      rw [AList.lookup_insert]
      change Option.Rel _ _ (loop.timer.timerMap.lookup fd')
      cases hnode : loop.timer.timerMap.lookup fd' with
      | none =>
        rw [hnode] at harmed
        cases harmed
      | some node =>
        rw [hnode] at harmed
        cases harmed with
        | some hguards => exact .some hguards
    · rw [AList.lookup_insert_ne hfd']
      exact harmed
  · intro fd' other hother
    rcases lookup_insert_eq_some.mp hother with ⟨rfl, rfl⟩ | ⟨-, hother⟩
    · exact ⟨hfd, hopen⟩
    · exact h.server fd' other hother
  · rw [howner]
    exact h.unique
  · rw [howner]
    exact h.still_open

/-- The calls of a handler are carried out, and the object is kept if it is still open. -/
theorem Consistent.handled (h : loop.Consistent [])
    (hclient : loop.clients.lookup fd = some client) {services : Services} {session : Session}
    (hlast : Session.ClosesLast ⟨client.server, services, []⟩ session) :
    ((session.trace.foldl (perform fd client.conn) loop).storeServer fd client.conn
      session.server).Consistent [] := by
  obtain ⟨hfd, -⟩ := h.server fd client hclient
  rcases hlast.calls with ⟨hopen, calls, htrace, hcalls⟩ | ⟨-, last, ⟨calls, htrace, hcalls⟩, hclose⟩
  · rw [htrace, List.nil_append, foldl_perform_of_ne _ _ _ hcalls]
    exact (h.record hclient calls).storeServer hclient (hlast.fd.trans hfd) hopen
  · -- the close is the last call, and there is no object to keep after it
    have hrecord : (loop.record fd client.conn calls).clients.lookup fd = some client := hclient
    rw [hclose, htrace, List.nil_append, List.foldl_append, foldl_perform_of_ne _ _ _ hcalls,
      List.foldl_cons, List.foldl_nil, perform, storeServer_closeConnection _ hrecord]
    exact (h.record hclient calls).closeConnection hrecord

theorem Consistent.handleEvent (h : loop.Consistent []) (readiness : Readiness) :
    (loop.handleEvent readiness).Consistent [] := by
  have hstart (services : Services) :
      Consistent { loop with now := readiness.now, services := services } [] :=
    h.append [] (by simp) rfl rfl rfl (List.append_nil _).symm
  unfold EventLoop.handleEvent
  dsimp only
  cases hclient : loop.clients.lookup readiness.fd with
  | none => exact hstart loop.services
  | some client =>
    obtain ⟨hfd, hopen⟩ := h.server readiness.fd client hclient
    dsimp only
    split
    · exact (hstart loop.services).closeConnection hclient
    · rw [hfd]
      exact (hstart _).handled hclient (handlers_closesLast readiness hopen)

end Events

/-! ## The end of the loop -/

section Exit

variable {loop : EventLoop}

/-- The calls by which the loop gives up one connection at its end. -/
def farewell (loop : EventLoop) (entry : (_ : ℕ) × Client) : List TimedCall :=
  [⟨loop.now, .epollDel entry.1 entry.2.conn (loop.owner entry.1)⟩,
    ⟨loop.now, .close entry.1 entry.2.conn (loop.owner entry.1)⟩]

theorem closeAllConnections_eq (loop : EventLoop) :
    loop.closeAllConnections =
      { loop with
        clients := ∅
        trace := loop.trace ++ loop.clients.entries.flatMap loop.farewell } := by
  have hfold (entries : List ((_ : ℕ) × Client)) (state : EventLoop)
      (hfarewell : state.farewell = loop.farewell) :
      entries.foldl (fun loop entry ↦
        (loop.emit (.epollDel entry.1 entry.2.conn (loop.owner entry.1))).emit
          (.close entry.1 entry.2.conn (loop.owner entry.1))) state =
      { state with trace := state.trace ++ entries.flatMap loop.farewell } := by
    induction entries generalizing state with
    | nil => simp
    | cons entry entries ih =>
      rw [List.foldl_cons]
      refine (ih _ (by exact hfarewell)).trans ?_
      rw [List.flatMap_cons, ← hfarewell]
      simp [emit, farewell, owner]
  unfold closeAllConnections
  rw [hfold _ _ rfl]
  rfl

/-- An entry of the table is the connection that owns its descriptor. -/
theorem owner_of_mem_entries {entry : (_ : ℕ) × Client} (h : entry ∈ loop.clients.entries) :
    loop.owner entry.1 = some entry.2.conn :=
  owner_of_lookup (AList.mem_lookup_iff.mpr h)

theorem closedConns_farewell {entries : List ((_ : ℕ) × Client)}
    (h : ∀ entry ∈ entries, loop.owner entry.1 = some entry.2.conn) :
    closedConns (entries.flatMap loop.farewell) = entries.map fun entry ↦ entry.2.conn := by
  induction entries with
  | nil => rfl
  | cons entry entries ih =>
    obtain ⟨howner, hentries⟩ := List.forall_mem_cons.mp h
    rw [List.flatMap_cons, closedConns_append, ih hentries, List.map_cons]
    simp [closedConns, farewell, LoopCall.closedConn, howner]

/-- At its end the loop closes every connection of the table once. -/
theorem Consistent.sound_exit (h : loop.Consistent []) :
    Sound (loop.closeAllConnections.log .info (lit "exit")).trace := by
  have howner : ∀ entry ∈ loop.clients.entries, loop.owner entry.1 = some entry.2.conn :=
    fun entry ↦ owner_of_mem_entries
  have haccepted : acceptedConns (loop.clients.entries.flatMap loop.farewell) = [] := by
    rw [acceptedConns, List.filterMap_eq_nil_iff]
    intro timed hmem
    obtain ⟨entry, -, hcall⟩ := List.mem_flatMap.mp hmem
    simp only [farewell, List.mem_cons, List.not_mem_nil, or_false] at hcall
    rcases hcall with rfl | rfl <;> rfl
  have hnodup : (loop.clients.entries.map fun entry ↦ entry.2.conn).Nodup := by
    refine (loop.clients.nodupKeys.nodup).map_on fun first hfirst second hsecond heq ↦ ?_
    have hfd := h.unique first.1 second.1 first.2.conn (howner first hfirst)
      (heq ▸ howner second hsecond)
    have hlookup := AList.mem_lookup_iff.mpr hfirst
    rw [hfd, Option.mem_def, AList.mem_lookup_iff.mpr hsecond] at hlookup
    exact Sigma.ext hfd (heq_of_eq (Option.some.inj hlookup).symm)
  have htrace : (loop.closeAllConnections.log .info (lit "exit")).trace =
      loop.trace ++ loop.clients.entries.flatMap loop.farewell ++
        [⟨loop.now, .log .info (loop.logText (lit "exit"))⟩] := by
    rw [closeAllConnections_eq]
    rfl
  rw [htrace]
  refine ⟨?_, ?_, ?_⟩
  · intro timed hmem
    rcases List.mem_append.mp hmem with hmem | hlog
    · rcases List.mem_append.mp hmem with hold | hnew
      · exact h.owned timed hold
      · obtain ⟨entry, hentry, hcall⟩ := List.mem_flatMap.mp hnew
        simp only [farewell, List.mem_cons, List.not_mem_nil, or_false] at hcall
        rcases hcall with rfl | rfl <;> exact howner entry hentry
    · rw [List.mem_singleton.mp hlog]
      trivial
  · rw [acceptedConns_append, acceptedConns_append, haccepted, List.append_nil, h.accepted]
    simpa [acceptedConns, LoopCall.acceptedConn] using List.nodup_range
  · rw [closedConns_append, closedConns_append, closedConns_farewell howner]
    have hlog : closedConns [⟨loop.now, .log .info (loop.logText (lit "exit"))⟩] = [] := rfl
    rw [hlog, List.append_nil, List.nodup_append]
    refine ⟨h.closed, hnodup, ?_⟩
    intro conn hold other hnew heq
    obtain ⟨entry, hentry, rfl⟩ := List.mem_map.mp hnew
    exact (h.still_open entry.1 _ (howner entry hentry)).2 (heq ▸ hold)

end Exit

/-! ## Runs -/

/-- The invariant of all runs: what was done is sound, and before its end the loop is consistent. -/
structure Steady (loop : EventLoop) : Prop where
  sound : Sound loop.trace
  consistent : loop.exited = false → loop.Consistent []

theorem Steady.of_consistent {loop : EventLoop} (h : loop.Consistent []) : loop.Steady :=
  ⟨h.sound, fun _ ↦ h⟩

theorem steady_new (id : ℕ) (services : Services) : (new id services).Steady :=
  .of_consistent (.new id services)

theorem Steady.step {loop : EventLoop} (h : loop.Steady) (input : LoopInput) :
    (loop.step input).Steady := by
  unfold EventLoop.step
  split
  · exact h
  · rename_i hexited
    have hconsistent := h.consistent (by simpa using hexited)
    cases input with
    | accept results =>
      dsimp only
      split
      · exact .of_consistent (hconsistent.acceptConnection results)
      · exact h
    | ready readiness =>
      dsimp only
      split
      · exact .of_consistent (hconsistent.handleEvent readiness)
      · exact h
    | wakeup =>
      exact .of_consistent
        (hconsistent.append [] (by simp) rfl rfl rfl (List.append_nil _).symm)
    | check now => exact .of_consistent (hconsistent.checkExpired now)
    | exit => exact ⟨hconsistent.sound_exit, fun hfalse ↦ absurd hfalse (by simp)⟩

theorem steady_run (id : ℕ) (services : Services) (inputs : List LoopInput) :
    (run EventLoop.step (new id services) inputs).Steady :=
  run_invariant_of_forall (fun _ input h ↦ h.step input) (steady_new id services) inputs

/-- In every run, every call on a socket is made on behalf of the connection that owns the
descriptor at that moment, the numbers of the accepted connections are distinct, and every one of them
is closed at most once. -/
theorem descriptors_owned (id : ℕ) (services : Services) (inputs : List LoopInput) :
    (∀ timed ∈ (run step (new id services) inputs).trace, timed.call.IsOwned) ∧
      (acceptedConns (run step (new id services) inputs).trace).Nodup ∧
      (closedConns (run step (new id services) inputs).trace).Nodup :=
  have h := (steady_run id services inputs).sound
  ⟨h.owned, h.accepted, h.closed⟩

/-- The connections of the table and the live timers are in one-to-one correspondence. -/
structure TimersArmed (loop : EventLoop) : Prop where
  keys : ∀ fd, fd ∈ loop.timer.timerMap ↔ fd ∈ loop.clients
  mapped_live : ∀ fd node, loop.timer.timerMap.lookup fd = some node →
    node ∈ loop.timer.timerSet ∧ loop.timer.isDeleted node = false
  live_open : ∀ node ∈ loop.timer.timerSet, loop.timer.isDeleted node = false →
    node.fd ∈ loop.clients ∧ loop.timer.timerMap.lookup node.fd = some node

/-- A descriptor has a timer if and only if it has a connection. -/
theorem Consistent.mem_timerMap {loop : EventLoop} (h : loop.Consistent []) (fd : ℕ) :
    fd ∈ loop.timer.timerMap ↔ fd ∈ loop.clients := by
  have harmed := h.armed fd
  rw [← AList.lookup_isSome, ← AList.lookup_isSome]
  cases hclient : loop.clients.lookup fd with
  | none =>
    rw [hclient] at harmed
    cases hnode : loop.timer.timerMap.lookup fd with
    | none => rfl
    | some node =>
      rw [hnode] at harmed
      cases harmed
  | some client =>
    rw [hclient] at harmed
    cases hnode : loop.timer.timerMap.lookup fd with
    | none =>
      rw [hnode] at harmed
      cases harmed
    | some node => simp

theorem Consistent.timersArmed {loop : EventLoop} (h : loop.Consistent []) : loop.TimersArmed where
  keys := h.mem_timerMap
  mapped_live fd node hlookup := by
    obtain ⟨-, hmem, hlive⟩ := h.timer.live fd node hlookup
    exact ⟨by simpa using hmem, decide_eq_false hlive⟩
  live_open node hmem hlive := by
    have hlookup := h.timer.mapped node (List.mem_append_left _ hmem) (of_decide_eq_false hlive)
    refine ⟨(h.mem_timerMap node.fd).mp (AList.lookup_isSome.mp ?_), hlookup⟩
    rw [hlookup]
    rfl

/-- In every run, as long as the loop has not ended, every open connection has exactly one armed
timer, and no other timer is live. -/
theorem timers_armed (id : ℕ) (services : Services) (inputs : List LoopInput)
    (hrunning : (run step (new id services) inputs).exited = false) :
    (run step (new id services) inputs).TimersArmed :=
  ((steady_run id services inputs).consistent hrunning).timersArmed

theorem timers_armed_accepted :
    (run step (new 0 ⟨⟨∅⟩, .new, .static⟩)
      [.accept [.connected 0 5 [], .connected 1 6 []], .check 7]).TimersArmed :=
  timers_armed 0 ⟨⟨∅⟩, .new, .static⟩ _ rfl

end EventLoop

end WebServer
