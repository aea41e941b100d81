import Mathlib.Data.List.Perm.Subperm
import WebServer.Loop.IdleTimer
import WebServer.Loop.Projection

/-!
# How long a connection lives

The timer of a connection is set once, when it is accepted. So a check closes exactly the connections
that were accepted more than one timeout ago, and what stays in `_timerSet`, the nodes that were deleted
lazily included, has been put there within one timeout. Neither the table nor the set can grow beyond
the number of connections accepted in that time.
-/

namespace WebServer

open Bytes Execution

namespace EventLoop

/-- The connections accepted at a time or later. -/
def acceptedSince (since : Time) (trace : List TimedCall) : List ℕ :=
  acceptedConns (trace.filter fun timed ↦ since ≤ timed.now)

theorem mem_acceptedSince {since now : Time} {trace : List TimedCall} {fd conn : ℕ} {clientIp : Bytes}
    (hmem : ⟨now, .accept fd conn clientIp⟩ ∈ trace) (hsince : since ≤ now) :
    conn ∈ acceptedSince since trace :=
  List.mem_filterMap.mpr ⟨_, List.mem_filter.mpr ⟨hmem, by simpa using hsince⟩, rfl⟩

/-- Every node of the set was put there by an `accept`, and has its number. -/
structure Stamped (loop : EventLoop) : Prop where
  nextId : loop.timer.nextId = loop.nextConn
  stamped : ∀ node ∈ loop.timer.timerSet, ∃ now clientIp,
    ⟨now, .accept node.fd node.id clientIp⟩ ∈ loop.trace ∧
    node.expireTime = now + Time.milliseconds keepAliveTimeoutMs

variable {loop loop' : EventLoop} {fd : ℕ} {client : Client}

theorem stamped_new (id : ℕ) (services : Services) : (new id services).Stamped where
  nextId := rfl
  stamped _ hmem := absurd hmem List.not_mem_nil

theorem Stamped.append (h : loop.Stamped) {calls : List TimedCall}
    (hset : loop'.timer.timerSet ⊆ loop.timer.timerSet)
    (hid : loop'.timer.nextId = loop.timer.nextId) (hnext : loop'.nextConn = loop.nextConn)
    (htrace : loop'.trace = loop.trace ++ calls) : loop'.Stamped := by
  apply Stamped.mk
  · rw [hid, hnext]
    exact h.nextId
  · intro node hmem
    obtain ⟨now, clientIp, haccept, hexpire⟩ := h.stamped node (hset hmem)
    rw [htrace]
    exact ⟨now, clientIp, List.mem_append_left calls haccept, hexpire⟩

/-! ## The operations -/

theorem Stamped.closeConnection (h : loop.Stamped) (hclient : loop.clients.lookup fd = some client) :
    (loop.closeConnection client.conn fd).Stamped := by
  rw [closeConnection_eq _ hclient]
  apply h.append
  · dsimp only
    rw [TcpTimer.timerSet_removeTimer]
    exact List.Subset.refl _
  · exact TcpTimer.nextId_removeTimer loop.timer fd
  · rfl
  · rfl

theorem Stamped.acceptOne (h : loop.Stamped) (now : Time) (fd : ℕ) (clientIp : Bytes) :
    (loop.acceptOne now fd clientIp).Stamped := by
  rw [acceptOne_eq]
  apply Stamped.mk
  · dsimp only
    rw [TcpTimer.addTimer, h.nextId]
  · intro node hmem
    dsimp only at hmem ⊢
    obtain rfl | hold := TcpTimer.mem_timerSet_addTimer.mp hmem
    · exact ⟨now, clientIp, by simp [h.nextId], rfl⟩
    · obtain ⟨time, other, haccept, hexpire⟩ := h.stamped node hold
      exact ⟨time, other, List.mem_append_left _ haccept, hexpire⟩

theorem Stamped.acceptConnection (h : loop.Stamped) (results : List AcceptResult) :
    (acceptConnection results loop).Stamped := by
  induction results generalizing loop with
  | nil => exact h
  | cons result results ih =>
    cases result with
    | connected now fd clientIp => exact ih (h.acceptOne now fd clientIp)
    | failed errno =>
      unfold EventLoop.acceptConnection
      split
      · exact h
      · exact h.append (List.Subset.refl _) rfl rfl rfl

theorem Stamped.handleEvent (h : loop.Stamped) (hconsistent : loop.Consistent [])
    (readiness : Readiness) : (loop.handleEvent readiness).Stamped := by
  obtain heq | ⟨client, services, actions, hclient, heq | ⟨server, heq⟩⟩ :=
    handleEvent_cases hconsistent readiness
  · rw [heq]
    exact h.append (List.Subset.refl _) rfl rfl (List.append_nil _).symm
  · have hrecord : Stamped (record ({ loop with now := readiness.now, services := services })
        readiness.fd client.conn actions) := h.append (List.Subset.refl _) rfl rfl rfl
    rw [heq]
    exact hrecord.closeConnection hclient
  · rw [heq]
    exact h.append (List.Subset.refl _) rfl rfl rfl

/-- Firing leaves the set alone, and takes the connections of the nodes out of the table. -/
theorem foldl_fire_spec {pending : List (TimerNode TimeoutCallback)}
    (hconsistent : loop.Consistent pending) :
    let fired := pending.foldl (TcpTimer.fire EventLoop.timer setTimer timeoutCallback) loop
    fired.timer.timerSet = loop.timer.timerSet ∧ fired.timer.nextId = loop.timer.nextId ∧
      fired.nextConn = loop.nextConn ∧ (∃ calls, fired.trace = loop.trace ++ calls) ∧
      ∀ fd client, fired.clients.lookup fd = some client ↔
        fd ∉ pending.map TimerNode.fd ∧ loop.clients.lookup fd = some client := by
  induction pending generalizing loop with
  | nil => exact ⟨rfl, rfl, rfl, ⟨[], (List.append_nil _).symm⟩, by simp⟩
  | cons node pending ih =>
    obtain ⟨owner, howner, hguards⟩ := hconsistent.client_of_pending List.mem_cons_self
    obtain ⟨hset, hid, hnext, ⟨calls, htrace⟩, hlookup⟩ := ih hconsistent.fire
    rw [hconsistent.fire_eq howner hguards] at hset hid hnext htrace hlookup
    dsimp only at hset hid hnext htrace hlookup ⊢
    rw [List.foldl_cons, hconsistent.fire_eq howner hguards]
    refine ⟨hset, hid, hnext, ⟨_, htrace.trans (List.append_assoc ..)⟩, fun fd client ↦ ?_⟩
    rw [hlookup, lookup_erase_eq_some, List.map_cons, List.mem_cons, not_or]
    tauto

theorem Stamped.checkExpired (h : loop.Stamped) (hconsistent : loop.Consistent []) (now : Time) :
    (loop.checkExpired now).Stamped := by
  obtain ⟨hset, hid, hnext, ⟨calls, htrace⟩, -⟩ := foldl_fire_spec (hconsistent.scan now)
  obtain ⟨-, -, -, hsuffix⟩ := TcpTimer.scan_spec loop.timer now loop.timer.timerSet
  apply h.append
  · exact hset ▸ hsuffix.subset
  · exact hid
  · exact hnext
  · exact htrace

theorem Stamped.step (h : loop.Stamped) (hsteady : loop.Steady) (input : LoopInput) :
    (loop.step input).Stamped := by
  unfold EventLoop.step
  split
  · exact h
  · rename_i hexited
    have hconsistent := hsteady.consistent (by simpa using hexited)
    cases input with
    | accept results =>
      dsimp only
      split
      · exact h.acceptConnection results
      · exact h
    | ready readiness =>
      dsimp only
      split
      · exact h.handleEvent hconsistent readiness
      · exact h
    | wakeup => exact h.append (List.Subset.refl _) rfl rfl (List.append_nil _).symm
    | check now => exact h.checkExpired hconsistent now
    | exit =>
      dsimp only
      rw [closeAllConnections_eq]
      exact h.append (List.Subset.refl _) rfl rfl (List.append_assoc ..)

/-! ## Results -/

/-- What a check leaves in the set was put there within one timeout. -/
theorem Stamped.length_timerSet_le (h : loop.Stamped) (hconsistent : loop.Consistent []) (now : Time) :
    (loop.checkExpired now).timer.timerSet.length ≤
      (acceptedSince (now - Time.milliseconds keepAliveTimeoutMs) loop.trace).length := by
  obtain ⟨hset, -⟩ := foldl_fire_spec (hconsistent.scan now)
  have hset : (loop.checkExpired now).timer.timerSet = (loop.timer.scan now loop.timer.timerSet).2 :=
    hset
  obtain ⟨-, -, -, hsuffix⟩ := TcpTimer.scan_spec loop.timer now loop.timer.timerSet
  have hnodup : (((loop.timer.scan now loop.timer.timerSet).2).map TimerNode.id).Nodup := by
    have hall : (loop.timer.timerSet.map TimerNode.id).Nodup := by simpa using hconsistent.timer.nodup
    exact hall.sublist (hsuffix.sublist.map _)
  have hrecent : ((loop.timer.scan now loop.timer.timerSet).2).map TimerNode.id ⊆
      acceptedSince (now - Time.milliseconds keepAliveTimeoutMs) loop.trace := by
    intro id hid
    obtain ⟨node, hnode, rfl⟩ := List.mem_map.mp hid
    obtain ⟨time, clientIp, haccept, hexpire⟩ := h.stamped node (hsuffix.subset hnode)
    have hnew := TcpTimer.scan_rest_not_expired loop.timer now hconsistent.timer.sorted node hnode
    rw [hexpire] at hnew
    exact mem_acceptedSince haccept (sub_le_iff_le_add.mpr (not_lt.mp hnew))
  rw [hset, ← List.length_map TimerNode.id]
  exact (hnodup.subperm hrecent).length_le

/-- The node that guards a connection of the table. -/
theorem Consistent.node_of_client (h : loop.Consistent []) (hclient : loop.clients.lookup fd = some client) :
    ∃ node, loop.timer.timerMap.lookup fd = some node ∧ Guards fd client node := by
  have harmed := h.armed fd
  rw [hclient] at harmed
  cases hnode : loop.timer.timerMap.lookup fd with
  | none =>
    rw [hnode] at harmed
    cases harmed
  | some node =>
    rw [hnode] at harmed
    cases harmed with
    | some hguards => exact ⟨node, rfl, hguards⟩

/-- A check keeps the connections that were accepted within one timeout. -/
theorem Consistent.lookup_checkExpired (h : loop.Consistent []) (now : Time) :
    (loop.checkExpired now).clients.lookup fd = some client ↔
      loop.clients.lookup fd = some client ∧
        now ≤ client.acceptedAt + Time.milliseconds keepAliveTimeoutMs := by
  obtain ⟨-, -, -, -, hlookup⟩ := foldl_fire_spec (h.scan now)
  have hlookup : (loop.checkExpired now).clients.lookup fd = some client ↔
      fd ∉ (loop.timer.scan now loop.timer.timerSet).1.map TimerNode.fd ∧
        loop.clients.lookup fd = some client := hlookup fd client
  rw [hlookup, and_comm, ← not_lt]
  apply and_congr_right
  intro hclient
  apply not_congr
  obtain ⟨hexpired, -, hlive, -⟩ := TcpTimer.scan_spec loop.timer now loop.timer.timerSet
  constructor
  · intro hmem
    obtain ⟨node, hnode, rfl⟩ := List.mem_map.mp hmem
    obtain ⟨other, hother, -, htime⟩ := (h.scan now).client_of_pending hnode
    obtain rfl : client = other := Option.some.inj (hclient.symm.trans hother)
    exact htime ▸ (hexpired node hnode).2
  · intro hdue
    obtain ⟨node, hmapped, -, htime⟩ := h.node_of_client hclient
    obtain ⟨hfd, hset, hmark⟩ := h.timer.live fd node hmapped
    rw [List.append_nil] at hset
    obtain hrest | hfired := List.mem_append.mp (hlive node hset hmark)
    · have hnew := TcpTimer.scan_rest_not_expired loop.timer now h.timer.sorted node hrest
      exact absurd (htime ▸ hdue) hnew
    · exact List.mem_map.mpr ⟨node, hfired, hfd⟩

/-- A connection's node is in the set, whatever the check does. -/
theorem Consistent.length_clients_le (h : loop.Consistent []) :
    loop.clients.entries.length ≤ loop.timer.timerSet.length := by
  have hguarded : loop.clients.keys ⊆ loop.timer.timerSet.map TimerNode.fd := by
    intro fd hmem
    obtain ⟨client, hclient⟩ := Option.isSome_iff_exists.mp (AList.lookup_isSome.mpr hmem)
    obtain ⟨node, hmapped, -⟩ := h.node_of_client hclient
    obtain ⟨rfl, hset, -⟩ := h.timer.live fd node hmapped
    exact List.mem_map_of_mem (by simpa using hset)
  have hlength := (loop.clients.keys_nodup.subperm hguarded).length_le
  simpa [AList.keys, List.keys] using hlength

theorem stamped_run (id : ℕ) (services : Services) (inputs : List LoopInput) :
    (run step (new id services) inputs).Steady ∧ (run step (new id services) inputs).Stamped := by
  have hstep (loop : EventLoop) (input : LoopInput) (h : loop.Steady ∧ loop.Stamped) :
      (loop.step input).Steady ∧ (loop.step input).Stamped :=
    ⟨h.1.step input, h.2.step h.1 input⟩
  exact run_invariant_of_forall hstep ⟨steady_new id services, stamped_new id services⟩ inputs

/-- A check closes exactly the connections accepted more than one timeout ago and keeps the others in the
table, and it leaves no more connections and no more timer nodes, deleted ones included, than connections were accepted since. -/
theorem open_for_one_timeout (id : ℕ) (services : Services) (inputs : List LoopInput) (now : Time)
    (hexited : (run step (new id services) inputs).exited = false) :
    let loop := run step (new id services) inputs
    let checked := loop.step (.check now)
    (∀ fd client, checked.clients.lookup fd = some client ↔ loop.clients.lookup fd = some client ∧
      now ≤ client.acceptedAt + Time.milliseconds keepAliveTimeoutMs) ∧
    (∀ conn, conn ∈ newlyClosed loop (.check now) ↔ ∃ fd client,
      loop.clients.lookup fd = some client ∧ client.conn = conn ∧
        client.acceptedAt + Time.milliseconds keepAliveTimeoutMs < now) ∧
    checked.clients.entries.length ≤ checked.timer.timerSet.length ∧
    checked.timer.timerSet.length ≤
      (acceptedSince (now - Time.milliseconds keepAliveTimeoutMs) loop.trace).length := by
  intro loop checked
  have hinvariant : loop.Steady ∧ loop.Stamped := stamped_run id services inputs
  have hconsistent := hinvariant.1.consistent hexited
  have hchecked : checked = loop.checkExpired now := by
    simp [checked, EventLoop.step, show loop.exited = false from hexited]
  rw [hchecked]
  refine ⟨fun fd client ↦ hconsistent.lookup_checkExpired now, fun conn ↦ ?_, ?_, ?_⟩
  · rw [hconsistent.mem_newlyClosed_iff hexited]
    constructor
    · rintro ⟨⟨fd, client⟩, hentry, hdue, hconn⟩
      exact ⟨fd, client, AList.mem_lookup_iff.mpr hentry, hconn, hdue⟩
    · rintro ⟨fd, client, hclient, hconn, hdue⟩
      exact ⟨⟨fd, client⟩, AList.mem_lookup_iff.mp hclient, hdue, hconn⟩
  · exact (hconsistent.checkExpired now).length_clients_le
  · exact hinvariant.2.length_timerSet_le hconsistent now

theorem open_for_one_timeout_accepted :
    let loop := run step (new 0 ⟨⟨∅⟩, .new, .static⟩)
      [.accept [.connected 0 5 [], .connected 20000000000 6 []]]
    let checked := loop.step (.check 40000000000)
    (∀ fd client, checked.clients.lookup fd = some client ↔ loop.clients.lookup fd = some client ∧
      40000000000 ≤ client.acceptedAt + Time.milliseconds keepAliveTimeoutMs) ∧
    (∀ conn, conn ∈ newlyClosed loop (.check 40000000000) ↔ ∃ fd client,
      loop.clients.lookup fd = some client ∧ client.conn = conn ∧
        client.acceptedAt + Time.milliseconds keepAliveTimeoutMs < 40000000000) ∧
    checked.clients.entries.length ≤ checked.timer.timerSet.length ∧
    checked.timer.timerSet.length ≤
      (acceptedSince (40000000000 - Time.milliseconds keepAliveTimeoutMs) loop.trace).length :=
  open_for_one_timeout 0 ⟨⟨∅⟩, .new, .static⟩ _ 40000000000 rfl

end EventLoop

end WebServer
