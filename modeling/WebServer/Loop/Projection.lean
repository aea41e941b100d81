import WebServer.Connection.Exchanges
import WebServer.Connection.Frames
import WebServer.Loop.Ownership

/-!
# The connections of a loop act alone

A loop interleaves its connections, reuses their descriptors and closes them from the outside. The
calls made for one connection are nevertheless those of a run of this connection alone, in which it
meets its own events only: an entry of `epoll_wait` is a read event, a write event or both, and an
error, a timeout or the end of the loop is a close. So every property of the runs of one connection
holds of each connection of every loop.
-/

namespace WebServer

open Bytes Execution

/-! ## The calls of one connection -/

namespace LoopCall

/-- What a call says about a connection. Whoever asks for it, a close is the close of the owner. -/
def actionOf (conn : ℕ) : LoopCall → Option Action
  | connection _ caller _ action => if caller = conn then some action else none
  | close _ _ owner => if owner = some conn then some .closeConnection else none
  | _ => none

end LoopCall

def actionsOf (conn : ℕ) (trace : List TimedCall) : List Action :=
  trace.filterMap fun timed ↦ timed.call.actionOf conn

@[simp]
theorem actionsOf_append (conn : ℕ) (first second : List TimedCall) :
    actionsOf conn (first ++ second) = actionsOf conn first ++ actionsOf conn second :=
  List.filterMap_append

theorem actionsOf_connection (now : Time) (fd conn : ℕ) (owner : Option ℕ) (actions : List Action)
    (other : ℕ) :
    actionsOf other (actions.map fun action ↦ ⟨now, .connection fd conn owner action⟩) =
      if conn = other then actions else [] := by
  unfold actionsOf
  rw [List.filterMap_map]
  by_cases hconn : conn = other
  · simp [hconn, LoopCall.actionOf]
  · simp [hconn, LoopCall.actionOf, Function.comp_def]

/-- The descriptor and the address a connection was accepted with. -/
def AcceptedAt (trace : List TimedCall) (fd conn : ℕ) (clientIp : Bytes) : Prop :=
  ∃ now, ⟨now, .accept fd conn clientIp⟩ ∈ trace

theorem AcceptedAt.mem_acceptedConns {trace : List TimedCall} {fd conn : ℕ} {clientIp : Bytes}
    (h : AcceptedAt trace fd conn clientIp) : conn ∈ acceptedConns trace := by
  obtain ⟨now, hmem⟩ := h
  exact List.mem_filterMap.mpr ⟨_, hmem, rfl⟩

theorem acceptedAt_append {trace calls : List TimedCall} (hcalls : acceptedConns calls = [])
    {fd conn : ℕ} {clientIp : Bytes} :
    AcceptedAt (trace ++ calls) fd conn clientIp ↔ AcceptedAt trace fd conn clientIp := by
  constructor
  · rintro ⟨now, hmem⟩
    obtain hold | hnew := List.mem_append.mp hmem
    · exact ⟨now, hold⟩
    · have hconn : conn ∈ acceptedConns calls := AcceptedAt.mem_acceptedConns ⟨now, hnew⟩
      rw [hcalls] at hconn
      exact absurd hconn List.not_mem_nil
  · rintro ⟨now, hmem⟩
    exact ⟨now, List.mem_append_left _ hmem⟩

section Accepting

variable (trace : List TimedCall) (now : Time) (fd conn : ℕ) (clientIp : Bytes) (events : EpollEvents)
  (level : LogLevel) (message : Bytes)

/-- The calls of an accept say nothing about what a connection does. -/
theorem actionsOf_accepting (other : ℕ) : actionsOf other (trace ++ [⟨now, .accept fd conn clientIp⟩,
    ⟨now, .epollAdd fd conn events⟩, ⟨now, .log level message⟩]) = actionsOf other trace := by
  rw [actionsOf_append]
  exact List.append_nil _

theorem acceptedAt_accepting (fd' other : ℕ) (clientIp' : Bytes) :
    AcceptedAt (trace ++ [⟨now, .accept fd conn clientIp⟩, ⟨now, .epollAdd fd conn events⟩,
      ⟨now, .log level message⟩]) fd' other clientIp' ↔
      AcceptedAt trace fd' other clientIp' ∨ (fd' = fd ∧ other = conn ∧ clientIp' = clientIp) := by
  simp [AcceptedAt, exists_or]

end Accepting

/-- Calls made for one connection: what they say about it, and whether they close it. -/
structure CallsFor (conn : ℕ) (actions : List Action) (closing : Bool) (calls : List TimedCall) :
    Prop where
  own : actionsOf conn calls = actions
  others : ∀ other, other ≠ conn → actionsOf other calls = []
  accepted : acceptedConns calls = []
  closed : closedConns calls = if closing then [conn] else []

theorem CallsFor.append {conn : ℕ} {actions actions' : List Action} {closing : Bool}
    {calls calls' : List TimedCall} (h : CallsFor conn actions false calls)
    (h' : CallsFor conn actions' closing calls') :
    CallsFor conn (actions ++ actions') closing (calls ++ calls') where
  own := by rw [actionsOf_append, h.own, h'.own]
  others other hother := by rw [actionsOf_append, h.others other hother, h'.others other hother]; rfl
  accepted := by rw [acceptedConns_append, h.accepted, h'.accepted]; rfl
  closed := by rw [closedConns_append, h.closed, h'.closed]; rfl

/-- The calls of a handler. -/
theorem callsFor_connection (now : Time) (fd conn : ℕ) (owner : Option ℕ) (actions : List Action) :
    CallsFor conn actions false
      (actions.map fun action ↦ ⟨now, .connection fd conn owner action⟩) where
  own := by rw [actionsOf_connection, if_pos rfl]
  others other hother := by rw [actionsOf_connection, if_neg (Ne.symm hother)]
  accepted := by simp [acceptedConns, LoopCall.acceptedConn]
  closed := by simp [closedConns, LoopCall.closedConn]

/-- The calls of `closeConnection`. -/
theorem callsFor_close (loop : EventLoop) (fd conn : ℕ) :
    CallsFor conn [.closeConnection] true
      [⟨loop.now, .epollDel fd conn (some conn)⟩, ⟨loop.now, .close fd conn (some conn)⟩,
        ⟨loop.now, .log .debug (loop.logText (lit "连接关闭 fd: " ++ decimal fd))⟩] where
  own := by simp [actionsOf, LoopCall.actionOf]
  others other hother := by simp [actionsOf, LoopCall.actionOf, Ne.symm hother]
  accepted := rfl
  closed := rfl

/-- The calls of an expired timer before it closes its connection. -/
theorem callsFor_timeout (loop : EventLoop) (fd conn : ℕ) :
    CallsFor conn [] false
      [⟨loop.now, .timeout fd conn (some conn)⟩,
        ⟨loop.now, .log .info (loop.logText (lit "连接超时关闭 fd: " ++ decimal fd))⟩] where
  own := rfl
  others _ _ := rfl
  accepted := rfl
  closed := rfl

/-! ## A connection alone -/

/-- A run of one connection that leaves this object and has made these calls. -/
def Alone (services : Services) (fd : ℕ) (clientIp : Bytes) (server : HttpServer)
    (trace : List Action) : Prop :=
  ∃ events services',
    run Session.step (Session.new fd clientIp services) events = ⟨server, services', trace⟩

section Alone

variable {services : Services} {fd : ℕ} {clientIp : Bytes} {server : HttpServer} {trace : List Action}

/-- The connection goes on with the services and the calls of the loop it is in. -/
theorem Alone.run (h : Alone services fd clientIp server trace) (met : Services)
    (events : List Event) :
    Alone services fd clientIp (run Session.step ⟨server, met, []⟩ events).server
      (trace ++ (run Session.step ⟨server, met, []⟩ events).trace) := by
  obtain ⟨earlier, left, hrun⟩ := h
  obtain ⟨events', services', hseen⟩ := Session.run_seen trace left ⟨server, met, []⟩ events
  refine ⟨earlier ++ events', services', ?_⟩
  have hstart : Session.seen trace left ⟨server, met, []⟩ = ⟨server, left, trace⟩ := by
    simp [Session.seen]
  rw [run_append, hrun, ← hstart, hseen]
  rfl

theorem Alone.close (h : Alone services fd clientIp server trace) (hopen : server.closed = false) :
    Alone services fd clientIp { server with closed := true } (trace ++ [.closeConnection]) := by
  have hclose : Session.step ⟨server, services, []⟩ .close =
      ⟨{ server with closed := true }, services, [.closeConnection]⟩ := by
    simp [Session.step, hopen, Session.closeConnection, Session.setServer, Session.emit]
  have hrun := h.run services [.close]
  rwa [run_cons, run_nil, hclose] at hrun

/-- The connection keeps the address it was accepted with. -/
theorem Alone.clientIp_eq (h : Alone services fd clientIp server trace) :
    server.clientIp = clientIp := by
  obtain ⟨events, services', hrun⟩ := h
  have hstep (session : Session) (event : Event) (hkept : session.server.clientIp = clientIp) :
      (session.step event).server.clientIp = clientIp :=
    (Session.clientIp_step session event).trans hkept
  have hkept := run_invariant_of_forall hstep
    (show (Session.new fd clientIp services).server.clientIp = clientIp from rfl) events
  rw [hrun] at hkept
  exact hkept

end Alone

namespace EventLoop

/-- The events of a connection that an entry of `epoll_wait` stands for. -/
def eventsOf (readiness : Readiness) : List Event :=
  (if readiness.events.epollin ∨ readiness.events.epollrdhup then
    [.read readiness.recvs readiness.envs readiness.sends] else []) ++
  if readiness.events.epollout then [.write readiness.writeSends] else []

theorem handlers_eq_run (readiness : Readiness) (session : Session) :
    handlers readiness session = run Session.step session (eventsOf readiness) := by
  unfold handlers eventsOf
  rw [run_append]
  split <;> split <;> rfl

/-- A handler's calls are carried out and the object is kept, or the last of them closes the
connection. -/
theorem handled_cases {loop : EventLoop} {fd : ℕ} {client : Client}
    (hclient : loop.clients.lookup fd = some client) {met : Services} {session : Session}
    (hlast : Session.ClosesLast ⟨client.server, met, []⟩ session) :
    (session.server.closed = false ∧
      (session.trace.foldl (perform fd client.conn) loop).storeServer fd client.conn session.server =
        (loop.record fd client.conn session.trace).setClients
          (loop.clients.insert fd { client with server := session.server })) ∨
    ∃ actions, session.server.closed = true ∧ session.trace = actions ++ [.closeConnection] ∧
      (session.trace.foldl (perform fd client.conn) loop).storeServer fd client.conn session.server =
        (loop.record fd client.conn actions).closeConnection client.conn fd := by
  obtain ⟨hopen, actions, htrace, hactions⟩ | ⟨hclosed, last, ⟨actions, htrace, hactions⟩, hclose⟩ :=
    hlast.calls
  · rw [List.nil_append] at htrace
    have hrecord : (loop.record fd client.conn actions).clients.lookup fd = some client := hclient
    apply Or.inl
    rw [htrace, foldl_perform_of_ne _ _ _ hactions]
    unfold EventLoop.storeServer
    rw [hrecord]
    exact ⟨hopen, if_pos rfl⟩
  · rw [List.nil_append] at htrace
    have hrecord : (loop.record fd client.conn actions).clients.lookup fd = some client := hclient
    rw [htrace] at hclose
    refine .inr ⟨actions, hclosed, hclose, ?_⟩
    rw [hclose, List.foldl_append, foldl_perform_of_ne _ _ _ hactions, List.foldl_cons, List.foldl_nil,
      perform, storeServer_closeConnection _ hrecord]

/-- What an event does to the loop: nothing, calls behind which the connection is closed, or calls behind
which its object is kept. -/
theorem handleEvent_cases {loop : EventLoop} (hconsistent : loop.Consistent []) (readiness : Readiness) :
    loop.handleEvent readiness = { loop with now := readiness.now } ∨
    ∃ client services actions, loop.clients.lookup readiness.fd = some client ∧
      (loop.handleEvent readiness =
          (record { loop with now := readiness.now, services := services } readiness.fd client.conn
            actions).closeConnection client.conn readiness.fd ∨
        ∃ server, loop.handleEvent readiness =
          (record { loop with now := readiness.now, services := services } readiness.fd client.conn
            actions).setClients (loop.clients.insert readiness.fd { client with server := server })) := by
  unfold EventLoop.handleEvent
  dsimp only
  cases hclient : loop.clients.lookup readiness.fd with
  | none => exact .inl rfl
  | some client =>
    obtain ⟨hfd, hopen⟩ := hconsistent.server readiness.fd client hclient
    apply Or.inr
    dsimp only
    split
    · refine ⟨client, loop.services, [], rfl, .inl ?_⟩
      simp [record]
    · rw [hfd]
      generalize hsession : handlers readiness ⟨client.server, loop.services, []⟩ = session
      have hlast : Session.ClosesLast ⟨client.server, loop.services, []⟩ session :=
        hsession ▸ handlers_closesLast readiness hopen
      have hstart : AList.lookup readiness.fd
          { loop with now := readiness.now, services := session.services }.clients = some client := hclient
      obtain ⟨-, heq⟩ | ⟨actions, -, -, heq⟩ := handled_cases hstart hlast
      · exact ⟨client, session.services, session.trace, rfl, .inr ⟨session.server, heq⟩⟩
      · exact ⟨client, session.services, actions, rfl, .inl heq⟩

/-! ## The invariant -/

/-- Every connection acts alone, and the object in the table is the one its run leaves. -/
structure Projects (services : Services) (loop : EventLoop) : Prop where
  opened : ∀ fd client, loop.clients.lookup fd = some client →
    AcceptedAt loop.trace fd client.conn client.server.clientIp
  accepted : ∀ fd conn clientIp, AcceptedAt loop.trace fd conn clientIp →
    ∃ server, Alone services fd clientIp server (actionsOf conn loop.trace) ∧
      (server.closed = true ↔ conn ∈ closedConns loop.trace) ∧
      ∀ client, loop.clients.lookup fd = some client → client.conn = conn → client.server = server
  fresh : ∀ conn, loop.nextConn ≤ conn → actionsOf conn loop.trace = []
  unique : ∀ fd fd' conn clientIp clientIp', AcceptedAt loop.trace fd conn clientIp →
    AcceptedAt loop.trace fd' conn clientIp' → fd = fd' ∧ clientIp = clientIp'

namespace Projects

variable {services : Services} {loop loop' : EventLoop}

theorem new (id : ℕ) (services : Services) : Projects services (EventLoop.new id services) where
  opened fd client h := absurd h (by simp [EventLoop.new])
  accepted := by
    rintro fd conn clientIp ⟨now, hmem⟩
    exact absurd hmem List.not_mem_nil
  fresh _ _ := rfl
  unique := by
    rintro fd fd' conn clientIp clientIp' ⟨now, hmem⟩
    exact absurd hmem List.not_mem_nil

theorem alone (h : Projects services loop) {fd : ℕ} {client : Client}
    (hclient : loop.clients.lookup fd = some client) :
    Alone services fd client.server.clientIp client.server (actionsOf client.conn loop.trace) := by
  obtain ⟨server, halone, -, hserver⟩ := h.accepted fd client.conn _ (h.opened fd client hclient)
  obtain rfl := hserver client hclient rfl
  exact halone

/-- Calls that concern no connection. -/
theorem append (h : Projects services loop) (calls : List TimedCall)
    (hactions : ∀ conn, actionsOf conn calls = []) (haccepted : acceptedConns calls = [])
    (hclosed : closedConns calls = []) (hclients : loop'.clients = loop.clients)
    (hnext : loop'.nextConn = loop.nextConn) (htrace : loop'.trace = loop.trace ++ calls) :
    Projects services loop' := by
  have hactionsOf (conn : ℕ) : actionsOf conn loop'.trace = actionsOf conn loop.trace := by
    rw [htrace, actionsOf_append, hactions, List.append_nil]
  have hacceptedAt (fd conn : ℕ) (clientIp : Bytes) :
      AcceptedAt loop'.trace fd conn clientIp ↔ AcceptedAt loop.trace fd conn clientIp := by
    rw [htrace]
    exact acceptedAt_append haccepted
  have hclosedConns : closedConns loop'.trace = closedConns loop.trace := by
    rw [htrace, closedConns_append, hclosed, List.append_nil]
  refine ⟨?_, ?_, ?_, ?_⟩
  · simpa only [hclients, hacceptedAt] using h.opened
  · simpa only [hclients, hactionsOf, hacceptedAt, hclosedConns] using h.accepted
  · simpa only [hactionsOf, hnext] using h.fresh
  · simpa only [hacceptedAt] using h.unique

/-- Calls made for one connection of the table, which keeps it or takes it out. -/
theorem act (h : Projects services loop) {pending : List (TimerNode TimeoutCallback)}
    (hconsistent : loop.Consistent pending) {fd : ℕ} {client : Client}
    (hclient : loop.clients.lookup fd = some client) {actions : List Action} {closing : Bool}
    {calls : List TimedCall} (hcalls : CallsFor client.conn actions closing calls)
    {server : HttpServer}
    (halone : Alone services fd client.server.clientIp server
      (actionsOf client.conn loop.trace ++ actions))
    (hserver : server.closed = closing) (hnext : loop'.nextConn = loop.nextConn)
    (htrace : loop'.trace = loop.trace ++ calls)
    (hclients : ∀ fd' client', loop'.clients.lookup fd' = some client' →
      (fd' = fd ∧ client' = { client with server := server }) ∨
        (fd' ≠ fd ∧ loop.clients.lookup fd' = some client')) :
    Projects services loop' := by
  have hacceptedAt (fd conn : ℕ) (clientIp : Bytes) :
      AcceptedAt loop'.trace fd conn clientIp ↔ AcceptedAt loop.trace fd conn clientIp := by
    rw [htrace]
    exact acceptedAt_append hcalls.accepted
  have hself : actionsOf client.conn loop'.trace = actionsOf client.conn loop.trace ++ actions := by
    rw [htrace, actionsOf_append, hcalls.own]
  have hother (conn : ℕ) (hconn : conn ≠ client.conn) :
      actionsOf conn loop'.trace = actionsOf conn loop.trace := by
    rw [htrace, actionsOf_append, hcalls.others conn hconn, List.append_nil]
  have hclosedConns : closedConns loop'.trace =
      closedConns loop.trace ++ if closing then [client.conn] else [] := by
    rw [htrace, closedConns_append, hcalls.closed]
  obtain ⟨hlt, hstill⟩ := hconsistent.still_open fd client.conn (owner_of_lookup hclient)
  refine ⟨?_, ?_, ?_, ?_⟩
  · intro fd' client' hclient'
    rw [hacceptedAt]
    obtain ⟨rfl, rfl⟩ | ⟨-, hold⟩ := hclients fd' client' hclient'
    · dsimp only
      rw [halone.clientIp_eq]
      exact h.opened fd' client hclient
    · exact h.opened fd' client' hold
  · intro fd' conn clientIp haccepted
    rw [hacceptedAt] at haccepted
    rw [hclosedConns, List.mem_append]
    by_cases hconn : conn = client.conn
    · subst hconn
      obtain ⟨rfl, rfl⟩ := h.unique _ _ _ _ _ haccepted (h.opened fd client hclient)
      refine ⟨server, hself ▸ halone, ?_, ?_⟩
      · rw [hserver]
        cases closing with
        | false => simpa using hstill
        | true => simp
      · intro client' hclient' _
        obtain ⟨-, rfl⟩ | ⟨hne, -⟩ := hclients fd' client' hclient'
        · rfl
        · exact absurd rfl hne
    · obtain ⟨server', halone', hiff, hserver'⟩ := h.accepted fd' conn clientIp haccepted
      refine ⟨server', hother conn hconn ▸ halone', hiff.trans ?_, ?_⟩
      · cases closing with
        | false => simp
        | true => simp [hconn]
      · intro client' hclient' hconn'
        obtain ⟨-, rfl⟩ | ⟨-, hold⟩ := hclients fd' client' hclient'
        · exact absurd hconn'.symm hconn
        · exact hserver' client' hold hconn'
  · intro conn hle
    rw [hnext] at hle
    rw [hother conn (by omega)]
    exact h.fresh conn hle
  · simpa only [hacceptedAt] using h.unique

/-! ## The steps of the loop -/

theorem acceptOne (h : Projects services loop) (hconsistent : loop.Consistent []) (now : Time) (fd : ℕ)
    (clientIp : Bytes) : Projects services (loop.acceptOne now fd clientIp) := by
  rw [acceptOne_eq]
  have hquiet := actionsOf_accepting loop.trace now fd loop.nextConn clientIp acceptEvents .debug
    (loop.logText (lit "新连接 fd: " ++ decimal fd))
  have hacceptedAt := acceptedAt_accepting loop.trace now fd loop.nextConn clientIp acceptEvents .debug
    (loop.logText (lit "新连接 fd: " ++ decimal fd))
  have hold {fd' conn : ℕ} {clientIp' : Bytes}
      (haccepted : AcceptedAt loop.trace fd' conn clientIp') : conn < loop.nextConn := by
    have hmem := haccepted.mem_acceptedConns
    rw [hconsistent.accepted] at hmem
    exact List.mem_range.mp hmem
  have hclosedConns : closedConns (loop.trace ++ [⟨now, .accept fd loop.nextConn clientIp⟩,
      ⟨now, .epollAdd fd loop.nextConn acceptEvents⟩,
      ⟨now, .log .debug (loop.logText (lit "新连接 fd: " ++ decimal fd))⟩]) =
      closedConns loop.trace := by
    rw [closedConns_append]
    exact List.append_nil _
  have hnew : Alone services fd clientIp (HttpServer.new fd clientIp)
      (actionsOf loop.nextConn loop.trace) := by
    rw [h.fresh loop.nextConn le_rfl]
    exact ⟨[], services, rfl⟩
  refine ⟨?_, ?_, ?_, ?_⟩
  · intro fd' client hclient
    dsimp only at hclient ⊢
    rw [hacceptedAt]
    obtain ⟨rfl, rfl⟩ | ⟨-, hlookup⟩ := lookup_insert_eq_some.mp hclient
    · exact .inr ⟨rfl, rfl, rfl⟩
    · exact .inl (h.opened fd' client hlookup)
  · intro fd' conn clientIp' haccepted
    dsimp only at haccepted ⊢
    rw [hacceptedAt] at haccepted
    rw [hquiet, hclosedConns]
    obtain haccepted | ⟨rfl, rfl, rfl⟩ := haccepted
    · obtain ⟨server, halone, hiff, hserver⟩ := h.accepted fd' conn clientIp' haccepted
      refine ⟨server, halone, hiff, ?_⟩
      intro client hclient hconn
      obtain ⟨-, rfl⟩ | ⟨-, hlookup⟩ := lookup_insert_eq_some.mp hclient
      · exact absurd hconn.symm (hold haccepted).ne
      · exact hserver client hlookup hconn
    · refine ⟨_, hnew, ?_, ?_⟩
      · simpa [HttpServer.new] using fun hmem ↦ (hconsistent.closed_lt _ hmem).ne rfl
      · intro client hclient _
        rw [AList.lookup_insert] at hclient
        obtain rfl := Option.some.inj hclient
        rfl
  · intro conn hle
    dsimp only at hle ⊢
    rw [hquiet]
    exact h.fresh conn (by omega)
  · intro fd₁ fd₂ conn clientIp₁ clientIp₂ h₁ h₂
    dsimp only at h₁ h₂
    rw [hacceptedAt] at h₁ h₂
    obtain h₁ | ⟨rfl, rfl, rfl⟩ := h₁
    · obtain h₂ | ⟨-, rfl, -⟩ := h₂
      · exact h.unique fd₁ fd₂ conn clientIp₁ clientIp₂ h₁ h₂
      · exact absurd (hold h₁) (lt_irrefl _)
    · obtain h₂ | ⟨rfl, -, rfl⟩ := h₂
      · exact absurd (hold h₂) (lt_irrefl _)
      · exact ⟨rfl, rfl⟩

theorem acceptConnection (h : Projects services loop) (hconsistent : loop.Consistent [])
    (results : List AcceptResult) : Projects services (acceptConnection results loop) := by
  induction results generalizing loop with
  | nil => exact h
  | cons result results ih =>
    cases result with
    | connected now fd clientIp =>
      exact ih (h.acceptOne hconsistent now fd clientIp) (hconsistent.acceptOne now fd clientIp)
    | failed errno =>
      unfold EventLoop.acceptConnection
      split
      · exact h
      · exact h.append [⟨loop.now, _⟩] (fun _ ↦ rfl) rfl rfl rfl rfl rfl

/-- A connection is closed from the outside. -/
theorem closeConnection (h : Projects services loop) (hconsistent : loop.Consistent []) {fd : ℕ}
    {client : Client} (hclient : loop.clients.lookup fd = some client) :
    Projects services (loop.closeConnection client.conn fd) := by
  rw [closeConnection_eq client.conn hclient]
  obtain ⟨-, hopen⟩ := hconsistent.server fd client hclient
  refine h.act hconsistent hclient (callsFor_close loop fd client.conn)
    ((h.alone hclient).close hopen) rfl ?_ ?_ ?_
  · rfl
  · rfl
  · intro fd' client' hclient'
    exact .inr (lookup_erase_eq_some.mp hclient')

/-- The calls of a handler are carried out, and the object is kept if it is still open. -/
theorem handled (h : Projects services loop) (hconsistent : loop.Consistent []) {fd : ℕ}
    {client : Client} (hclient : loop.clients.lookup fd = some client) {met : Services}
    {session : Session} (hlast : Session.ClosesLast ⟨client.server, met, []⟩ session)
    (halone : Alone services fd client.server.clientIp session.server
      (actionsOf client.conn loop.trace ++ session.trace)) :
    Projects services ((session.trace.foldl (perform fd client.conn) loop).storeServer fd client.conn
      session.server) := by
  obtain ⟨hopen, heq⟩ | ⟨actions, hclosed, htrace, heq⟩ := handled_cases hclient hlast
  · rw [heq]
    apply h.act hconsistent hclient
      (callsFor_connection loop.now fd client.conn (loop.owner fd) session.trace) halone hopen
    · rfl
    · rfl
    · intro fd' client' hclient'
      obtain ⟨rfl, rfl⟩ | hother := lookup_insert_eq_some.mp hclient'
      · exact .inl ⟨rfl, rfl⟩
      · exact .inr hother
  · -- the close takes the object out of the table
    have hrecord : (loop.record fd client.conn actions).clients.lookup fd = some client := hclient
    rw [htrace] at halone
    rw [heq, closeConnection_eq client.conn hrecord]
    apply h.act hconsistent hclient
      ((callsFor_connection loop.now fd client.conn (loop.owner fd) actions).append
        (callsFor_close loop fd client.conn)) halone hclosed
    · rfl
    · exact List.append_assoc ..
    · intro fd' client' hclient'
      exact .inr (lookup_erase_eq_some.mp hclient')

theorem handleEvent (h : Projects services loop) (hconsistent : loop.Consistent [])
    (readiness : Readiness) : Projects services (loop.handleEvent readiness) := by
  have hstart (met : Services) :
      Projects services { loop with now := readiness.now, services := met } :=
    h.append [] (fun _ ↦ rfl) rfl rfl rfl rfl (List.append_nil _).symm
  have hsteady (met : Services) :
      Consistent { loop with now := readiness.now, services := met } [] :=
    hconsistent.append [] (by simp) rfl rfl rfl (List.append_nil _).symm
  unfold EventLoop.handleEvent
  dsimp only
  cases hclient : loop.clients.lookup readiness.fd with
  | none => exact hstart loop.services
  | some client =>
    obtain ⟨hfd, hopen⟩ := hconsistent.server readiness.fd client hclient
    dsimp only
    split
    · exact (hstart loop.services).closeConnection (hsteady loop.services) hclient
    · rw [hfd]
      apply (hstart _).handled (hsteady _) hclient (handlers_closesLast readiness hopen)
      rw [handlers_eq_run]
      exact (h.alone hclient).run loop.services (eventsOf readiness)

theorem fire {node : TimerNode TimeoutCallback} {pending : List (TimerNode TimeoutCallback)}
    (h : Projects services loop) (hconsistent : loop.Consistent (node :: pending)) :
    Projects services (TcpTimer.fire EventLoop.timer setTimer timeoutCallback loop node) := by
  obtain ⟨client, hclient, hguards⟩ := hconsistent.client_of_pending List.mem_cons_self
  obtain ⟨-, hopen⟩ := hconsistent.server node.fd client hclient
  rw [hconsistent.fire_eq hclient hguards]
  refine h.act hconsistent hclient
    ((callsFor_timeout loop node.fd client.conn).append
      (callsFor_close loop node.fd client.conn))
    ((h.alone hclient).close hopen) rfl ?_ ?_ ?_
  · rfl
  · rfl
  · intro fd' client' hclient'
    exact .inr (lookup_erase_eq_some.mp hclient')

theorem foldl_fire {pending : List (TimerNode TimeoutCallback)} (h : Projects services loop)
    (hconsistent : loop.Consistent pending) : Projects services
      (pending.foldl (TcpTimer.fire EventLoop.timer setTimer timeoutCallback) loop) := by
  induction pending generalizing loop with
  | nil => exact h
  | cons node pending ih => exact ih (h.fire hconsistent) hconsistent.fire

theorem checkExpired (h : Projects services loop) (hconsistent : loop.Consistent []) (now : Time) :
    Projects services (loop.checkExpired now) := by
  apply foldl_fire _ (hconsistent.scan now)
  exact h.append [] (fun _ ↦ rfl) rfl rfl rfl rfl (List.append_nil _).symm

/-! ## The end of the loop -/

theorem acceptedConns_farewell (entries : List ((_ : ℕ) × Client)) :
    acceptedConns (entries.flatMap loop.farewell) = [] := by
  induction entries with
  | nil => rfl
  | cons entry entries ih =>
    rw [List.flatMap_cons, acceptedConns_append, ih]
    rfl

/-- The end of the loop is a close for the connections of the table. -/
theorem actionsOf_farewell {entries : List ((_ : ℕ) × Client)}
    (howner : ∀ entry ∈ entries, loop.owner entry.1 = some entry.2.conn) (conn : ℕ) :
    actionsOf conn (entries.flatMap loop.farewell) =
      List.replicate ((entries.map fun entry ↦ entry.2.conn).count conn) .closeConnection := by
  induction entries with
  | nil => rfl
  | cons entry entries ih =>
    obtain ⟨hentry, hentries⟩ := List.forall_mem_cons.mp howner
    rw [List.flatMap_cons, actionsOf_append, ih hentries, List.map_cons]
    by_cases hconn : entry.2.conn = conn
    · simp [actionsOf, farewell, LoopCall.actionOf, hentry, hconn, List.replicate_succ]
    · simp [actionsOf, farewell, LoopCall.actionOf, hentry, hconn]

theorem closeAllConnections (h : Projects services loop) (hconsistent : loop.Consistent []) :
    Projects services loop.closeAllConnections := by
  have howner : ∀ entry ∈ loop.clients.entries, loop.owner entry.1 = some entry.2.conn :=
    fun entry ↦ owner_of_mem_entries
  have hclosed := closedConns_farewell howner
  have hnodup : (loop.clients.entries.map fun entry ↦ entry.2.conn).Nodup := by
    have hsound := hconsistent.sound_exit.closed
    rw [closeAllConnections_eq] at hsound
    simp only [EventLoop.log, emit, closedConns_append, hclosed] at hsound
    exact hsound.of_append_left.of_append_right
  rw [closeAllConnections_eq]
  refine ⟨?_, ?_, ?_, ?_⟩
  · intro fd client hclient
    exact absurd hclient (by simp)
  · intro fd conn clientIp hconn
    dsimp only at hconn ⊢
    rw [acceptedAt_append (acceptedConns_farewell _)] at hconn
    rw [actionsOf_append, actionsOf_farewell howner, closedConns_append, hclosed, List.mem_append]
    by_cases hmem : conn ∈ loop.clients.entries.map fun entry ↦ entry.2.conn
    · rw [List.count_eq_one_of_mem hnodup hmem]
      obtain ⟨entry, hentry, hentryConn⟩ := List.mem_map.mp hmem
      subst hentryConn
      have hclient : loop.clients.lookup entry.1 = some entry.2 := AList.mem_lookup_iff.mpr hentry
      obtain ⟨rfl, rfl⟩ := h.unique _ _ _ _ _ hconn (h.opened entry.1 entry.2 hclient)
      exact ⟨_, (h.alone hclient).close (hconsistent.server entry.1 entry.2 hclient).2, by simp [hmem],
        by simp⟩
    · obtain ⟨server, halone, hiff, -⟩ := h.accepted fd conn clientIp hconn
      rw [List.count_eq_zero_of_not_mem hmem, List.replicate_zero, List.append_nil]
      exact ⟨server, halone, by simpa [hmem] using hiff, by simp⟩
  · intro conn hle
    have hmem : conn ∉ loop.clients.entries.map fun entry ↦ entry.2.conn := by
      intro hmem
      obtain ⟨entry, hentry, rfl⟩ := List.mem_map.mp hmem
      exact absurd (hconsistent.still_open entry.1 _ (howner entry hentry)).1 (not_lt.mpr hle)
    dsimp only
    rw [actionsOf_append, actionsOf_farewell howner, List.count_eq_zero_of_not_mem hmem,
      h.fresh conn hle]
    rfl
  · intro fd fd' conn clientIp clientIp' hfd hfd'
    rw [acceptedAt_append (acceptedConns_farewell _)] at hfd hfd'
    exact h.unique fd fd' conn clientIp clientIp' hfd hfd'

theorem step (h : Projects services loop) (hsteady : loop.Steady) (input : LoopInput) :
    Projects services (loop.step input) := by
  unfold EventLoop.step
  split
  · exact h
  · rename_i hexited
    have hconsistent := hsteady.consistent (by simpa using hexited)
    cases input with
    | accept results =>
      dsimp only
      split
      · exact h.acceptConnection hconsistent results
      · exact h
    | ready readiness =>
      dsimp only
      split
      · exact h.handleEvent hconsistent readiness
      · exact h
    | wakeup => exact h.append [] (fun _ ↦ rfl) rfl rfl rfl rfl (List.append_nil _).symm
    | check now => exact h.checkExpired hconsistent now
    | exit =>
      exact (h.closeAllConnections hconsistent).append
        [⟨loop.closeAllConnections.now, .log .info (loop.closeAllConnections.logText (lit "exit"))⟩]
        (fun _ ↦ rfl) rfl rfl rfl rfl rfl

end Projects

theorem projects_run (id : ℕ) (services : Services) (inputs : List LoopInput) :
    Projects services (run step (new id services) inputs) := by
  have hstep (loop : EventLoop) (input : LoopInput) (h : loop.Steady ∧ Projects services loop) :
      (loop.step input).Steady ∧ Projects services (loop.step input) :=
    ⟨h.1.step input, h.2.step h.1 input⟩
  exact (run_invariant_of_forall hstep ⟨steady_new id services, .new id services⟩ inputs).2

/-- In every run of a loop, whatever else happens in it, the calls made for a connection are those of a
run of this connection alone, with the address it was accepted with: it has been closed in the one if and
only if its object is closed in the other, and what the table keeps of it is the object its own run
leaves. -/
theorem connection_acts_alone (id : ℕ) (services : Services) (inputs : List LoopInput) (fd conn : ℕ)
    (clientIp : Bytes)
    (haccepted : AcceptedAt (run step (new id services) inputs).trace fd conn clientIp) :
    ∃ events,
      (run Session.step (Session.new fd clientIp services) events).trace =
          actionsOf conn (run step (new id services) inputs).trace ∧
        ((run Session.step (Session.new fd clientIp services) events).server.closed = true ↔
          conn ∈ closedConns (run step (new id services) inputs).trace) ∧
        ∀ client, (run step (new id services) inputs).clients.lookup fd = some client →
          client.conn = conn →
            client.server = (run Session.step (Session.new fd clientIp services) events).server := by
  obtain ⟨server, ⟨events, services', hrun⟩, hclosed, hserver⟩ :=
    (projects_run id services inputs).accepted fd conn clientIp haccepted
  refine ⟨events, ?_⟩
  rw [hrun]
  exact ⟨rfl, hclosed, hserver⟩

/-- A connection times out, and its descriptor is used again. -/
def reuse : List LoopInput :=
  [.accept [.connected 0 5 []], .check 30000000001, .accept [.connected 30000000009 5 []], .exit]

theorem connection_acts_alone_reused :
    ∃ events,
      (run Session.step (Session.new 5 [] ⟨⟨∅⟩, .new, .static⟩) events).trace =
          actionsOf 1 (run step (new 0 ⟨⟨∅⟩, .new, .static⟩) reuse).trace ∧
        ((run Session.step (Session.new 5 [] ⟨⟨∅⟩, .new, .static⟩) events).server.closed = true ↔
          1 ∈ closedConns (run step (new 0 ⟨⟨∅⟩, .new, .static⟩) reuse).trace) ∧
        ∀ client, (run step (new 0 ⟨⟨∅⟩, .new, .static⟩) reuse).clients.lookup 5 = some client →
          client.conn = 1 → client.server =
            (run Session.step (Session.new 5 [] ⟨⟨∅⟩, .new, .static⟩) events).server :=
  connection_acts_alone 0 ⟨⟨∅⟩, .new, .static⟩ reuse 5 1 []
    ⟨30000000009, List.mem_of_getElem? (show _[8]? = some _ from rfl)⟩

/-- On every connection of every loop a client is served its own answers, computed for its own address:
nothing of another connection comes in between, and nothing is taken from its input but what it sent. -/
theorem clients_served (id : ℕ) (services : Services) (inputs : List LoopInput) (fd conn : ℕ)
    (clientIp : Bytes)
    (haccepted : AcceptedAt (run step (new id services) inputs).trace fd conn clientIp) :
    Served clientIp (actionsOf conn (run step (new id services) inputs).trace) := by
  obtain ⟨server, ⟨events, services', hrun⟩, -, -⟩ :=
    (projects_run id services inputs).accepted fd conn clientIp haccepted
  have hserved := served_run fd clientIp services events
  rw [hrun] at hserved
  exact hserved

/-- A connection times out, its descriptor is used again, and the new client asks for a page. -/
def reusedAndAsked : List LoopInput :=
  [.accept [.connected 0 5 []], .check 30000000001,
    .accept [.connected 30000000009 5 (lit "10.0.0.2")],
    .ready
      { now := 30000000010
        fd := 5
        events := { acceptEvents with epollrdhup := false }
        recvs := [.received (lit "GET /none HTTP/1.1\r\n\r\n"), .failed eagain]
        envs _ := ⟨fun services ↦ services, 30000000010, 30000000010, fun _ ↦ none⟩
        sends _ := ⟨1000, 0⟩
        writeSends _ := ⟨1000, 0⟩ }]

set_option maxRecDepth 4000 in
theorem clients_served_reusedAndAsked :
    Served (lit "10.0.0.2")
      (actionsOf 1 (run step (new 0 ⟨⟨∅⟩, .new, .static⟩) reusedAndAsked).trace) ∧
      (verdicts (actionsOf 1 (run step (new 0 ⟨⟨∅⟩, .new, .static⟩)
        reusedAndAsked).trace)).length = 1 ∧
      accepted (actionsOf 1 (run step (new 0 ⟨⟨∅⟩, .new, .static⟩) reusedAndAsked).trace) ≠ [] := by
  have haccepted : AcceptedAt (run step (new 0 ⟨⟨∅⟩, .new, .static⟩) reusedAndAsked).trace 5 1
      (lit "10.0.0.2") := ⟨30000000009, List.mem_of_getElem? (show _[8]? = some _ from rfl)⟩
  exact ⟨clients_served 0 ⟨⟨∅⟩, .new, .static⟩ reusedAndAsked 5 1 (lit "10.0.0.2") haccepted,
    by decide +kernel, by decide +kernel⟩

end EventLoop

end WebServer
