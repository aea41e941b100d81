import WebServer.Loop.Projection

/-!
# Every socket is closed

The kernel hands out a descriptor only while it is free, so no connection takes the place of another one
in `_clients`. Every accepted socket is then in the table until it is closed, and when the loop has ended
all accepted sockets are closed, each of them once.
-/

namespace WebServer

open Bytes Execution

/-- The descriptors that a call of `acceptConnection` gets. -/
def AcceptResult.fds : List AcceptResult → List ℕ
  | .connected _ fd _ :: results => fd :: fds results
  | .failed _ :: _ => []
  | [] => []

namespace EventLoop

/-- `accept` returns descriptors that are not in use. -/
def FreeDescriptors (loop : EventLoop) : LoopInput → Prop
  | .accept results => (AcceptResult.fds results).Nodup ∧
      ∀ fd ∈ AcceptResult.fds results, loop.clients.lookup fd = none
  | .ready _ | .wakeup | .check _ | .exit => True

instance (loop : EventLoop) (input : LoopInput) : Decidable (loop.FreeDescriptors input) :=
  match input with
  | .accept results => inferInstanceAs (Decidable ((AcceptResult.fds results).Nodup ∧
      ∀ fd ∈ AcceptResult.fds results, loop.clients.lookup fd = none))
  | .ready _ | .wakeup | .check _ | .exit => inferInstanceAs (Decidable True)

/-- The loop goes on, and an accepted connection that is not closed is in the table. -/
structure Kept (loop : EventLoop) : Prop where
  exited : loop.exited = false
  owned : ∀ conn < loop.nextConn, conn ∉ closedConns loop.trace → ∃ fd, loop.owner fd = some conn

variable {loop loop' : EventLoop} {fd : ℕ} {client : Client}

theorem kept_new (id : ℕ) (services : Services) : (new id services).Kept where
  exited := rfl
  owned _ hlt := absurd hlt (Nat.not_lt_zero _)

theorem Kept.append (h : loop.Kept) {calls : List TimedCall} (hexited : loop'.exited = loop.exited)
    (howner : loop'.owner = loop.owner) (hnext : loop'.nextConn = loop.nextConn)
    (htrace : loop'.trace = loop.trace ++ calls) : loop'.Kept := by
  refine ⟨hexited.trans h.exited, ?_⟩
  intro conn hlt hopen
  rw [htrace, closedConns_append, List.mem_append, not_or] at hopen
  rw [hnext] at hlt
  rw [howner]
  exact h.owned conn hlt hopen.1

theorem Kept.detach (h : loop.Kept) (hclient : loop.clients.lookup fd = some client)
    {calls : List TimedCall} (hexited : loop'.exited = loop.exited)
    (hclients : loop'.clients = loop.clients.erase fd) (hnext : loop'.nextConn = loop.nextConn)
    (htrace : loop'.trace = loop.trace ++ calls) (hclosed : closedConns calls = [client.conn]) :
    loop'.Kept := by
  refine ⟨hexited.trans h.exited, ?_⟩
  intro conn hlt hopen
  rw [htrace, closedConns_append, hclosed, List.mem_append, not_or, List.mem_singleton] at hopen
  rw [hnext] at hlt
  obtain ⟨fd', howner⟩ := h.owned conn hlt hopen.1
  have hne : fd' ≠ fd := by
    rintro rfl
    rw [owner_of_lookup hclient] at howner
    exact hopen.2 (Option.some.inj howner).symm
  apply Exists.intro fd'
  rw [owner, hclients, AList.lookup_erase_ne hne]
  exact howner

/-! ## The operations -/

theorem Kept.closeConnection (h : loop.Kept) (hclient : loop.clients.lookup fd = some client) :
    (loop.closeConnection client.conn fd).Kept := by
  rw [closeConnection_eq _ hclient]
  exact h.detach hclient rfl rfl rfl rfl rfl

theorem Kept.foldl_fire {pending : List (TimerNode TimeoutCallback)} (h : loop.Kept)
    (hconsistent : loop.Consistent pending) :
    (pending.foldl (TcpTimer.fire EventLoop.timer setTimer timeoutCallback) loop).Kept := by
  induction pending generalizing loop with
  | nil => exact h
  | cons node pending ih =>
    obtain ⟨client, hclient, hguards⟩ := hconsistent.client_of_pending List.mem_cons_self
    apply ih _ hconsistent.fire
    rw [hconsistent.fire_eq hclient hguards]
    exact h.detach hclient rfl rfl rfl rfl rfl

theorem Kept.acceptOne (h : loop.Kept) (hfree : loop.clients.lookup fd = none) (now : Time)
    (clientIp : Bytes) : (loop.acceptOne now fd clientIp).Kept := by
  rw [acceptOne_eq]
  refine ⟨h.exited, ?_⟩
  intro conn hlt hopen
  dsimp only at hlt hopen
  rw [closedConns_append, List.mem_append, not_or] at hopen
  obtain rfl | hne := eq_or_ne conn loop.nextConn
  · exact ⟨fd, by simp [owner]⟩
  · obtain ⟨fd', howner⟩ := h.owned conn (by omega) hopen.1
    have hfd : fd' ≠ fd := by
      rintro rfl
      rw [owner, hfree] at howner
      exact absurd howner (by simp)
    apply Exists.intro fd'
    rw [owner, AList.lookup_insert_ne hfd]
    exact howner

theorem Kept.acceptConnection (h : loop.Kept) {results : List AcceptResult}
    (hnodup : (AcceptResult.fds results).Nodup)
    (hfree : ∀ fd ∈ AcceptResult.fds results, loop.clients.lookup fd = none) :
    (acceptConnection results loop).Kept := by
  induction results generalizing loop with
  | nil => exact h
  | cons result results ih =>
    cases result with
    | connected now fd clientIp =>
      obtain ⟨hfirst, hrest⟩ := List.forall_mem_cons.mp hfree
      obtain ⟨hfresh, hnodup⟩ := List.nodup_cons.mp hnodup
      apply ih (h.acceptOne hfirst now clientIp) hnodup
      intro fd' hmem
      have hne : fd' ≠ fd := by
        rintro rfl
        exact hfresh hmem
      rw [acceptOne_eq]
      dsimp only
      rw [AList.lookup_insert_ne hne]
      exact hrest fd' hmem
    | failed errno =>
      unfold EventLoop.acceptConnection
      split
      · exact h
      · exact h.append rfl rfl rfl rfl

theorem owner_insert_server (hclient : loop.clients.lookup fd = some client) (server : HttpServer) :
    (loop.setClients (loop.clients.insert fd { client with server := server })).owner = loop.owner := by
  funext fd'
  unfold owner setClients
  by_cases hfd : fd' = fd
  · rw [hfd, AList.lookup_insert, hclient]
    rfl
  · rw [AList.lookup_insert_ne hfd]

theorem Kept.handleEvent (h : loop.Kept) (hconsistent : loop.Consistent []) (readiness : Readiness) :
    (loop.handleEvent readiness).Kept := by
  obtain heq | ⟨client, services, actions, hclient, heq | ⟨server, heq⟩⟩ :=
    handleEvent_cases hconsistent readiness
  · rw [heq]
    exact h.append rfl rfl rfl (List.append_nil _).symm
  · have hrecord : Kept (record ({ loop with now := readiness.now, services := services })
        readiness.fd client.conn actions) := h.append rfl rfl rfl rfl
    rw [heq]
    exact hrecord.closeConnection hclient
  · rw [heq]
    exact h.append rfl (owner_insert_server hclient server) rfl rfl

theorem Kept.checkExpired (h : loop.Kept) (hconsistent : loop.Consistent []) (now : Time) :
    (loop.checkExpired now).Kept := by
  have hscan : Kept (setTimer { loop with now := now }
      { loop.timer with timerSet := (loop.timer.scan now loop.timer.timerSet).2 }) :=
    h.append rfl rfl rfl (List.append_nil _).symm
  exact hscan.foldl_fire (hconsistent.scan now)

/-- `closeAllConnections` closes what is in the table, and nothing else was left open. -/
theorem Kept.exit (h : loop.Kept) (hconsistent : loop.Consistent []) :
    (acceptedConns (loop.closeAllConnections.log .info (lit "exit")).trace).Perm
      (closedConns (loop.closeAllConnections.log .info (lit "exit")).trace) := by
  have howner : ∀ entry ∈ loop.clients.entries, loop.owner entry.1 = some entry.2.conn :=
    fun entry ↦ owner_of_mem_entries
  have hsound := hconsistent.sound_exit
  apply (List.perm_ext_iff_of_nodup hsound.accepted hsound.closed).mpr
  intro conn
  have haccepted : acceptedConns (loop.closeAllConnections.log .info (lit "exit")).trace =
      List.range loop.nextConn := by
    rw [closeAllConnections_eq]
    simp only [EventLoop.log, emit, acceptedConns_append, Projects.acceptedConns_farewell,
      hconsistent.accepted, List.append_nil]
    exact List.append_nil _
  have hclosed : conn ∈ closedConns (loop.closeAllConnections.log .info (lit "exit")).trace ↔
      conn ∈ closedConns loop.trace ∨ ∃ fd, loop.owner fd = some conn := by
    rw [closeAllConnections_eq]
    simp only [EventLoop.log, emit, closedConns_append, closedConns_farewell howner]
    rw [show closedConns [⟨loop.now, .log .info _⟩] = [] from rfl, List.append_nil, List.mem_append]
    apply or_congr_right
    constructor
    · intro hmem
      obtain ⟨entry, hentry, rfl⟩ := List.mem_map.mp hmem
      exact ⟨entry.1, howner entry hentry⟩
    · rintro ⟨fd, hfd⟩
      obtain ⟨client, hclient, rfl⟩ := owner_eq_some.mp hfd
      exact List.mem_map.mpr ⟨⟨fd, client⟩, AList.mem_lookup_iff.mp hclient, rfl⟩
  rw [haccepted, hclosed, List.mem_range]
  constructor
  · intro hlt
    exact Classical.or_iff_not_imp_left.mpr (h.owned conn hlt)
  · rintro (hold | ⟨fd, hfd⟩)
    · exact hconsistent.closed_lt conn hold
    · exact (hconsistent.still_open fd conn hfd).1

/-! ## Results -/

/-- Before its end the loop has all connections that are not closed, and at its end all are closed. -/
structure Accounted (loop : EventLoop) : Prop extends Steady loop where
  kept : loop.exited = false → loop.Kept
  ended : loop.exited = true → (acceptedConns loop.trace).Perm (closedConns loop.trace)

theorem Accounted.of_kept (hsteady : loop.Steady) (h : loop.Kept) : loop.Accounted where
  toSteady := hsteady
  kept _ := h
  ended hexited := absurd (h.exited.symm.trans hexited) (by simp)

theorem Accounted.step (h : loop.Accounted) {input : LoopInput} (hfree : loop.FreeDescriptors input) :
    (loop.step input).Accounted := by
  have hsteady := h.toSteady.step input
  unfold EventLoop.step at hsteady ⊢
  by_cases hexited : loop.exited = true
  · rw [if_pos hexited]
    exact h
  rw [if_neg hexited] at hsteady ⊢
  have hconsistent := h.consistent (by simpa using hexited)
  have hkept := h.kept (by simpa using hexited)
  cases input with
  | accept results =>
    apply Accounted.of_kept hsteady
    dsimp only
    split
    · exact hkept.acceptConnection hfree.1 hfree.2
    · exact hkept
  | ready readiness =>
    apply Accounted.of_kept hsteady
    dsimp only
    split
    · exact hkept.handleEvent hconsistent readiness
    · exact hkept
  | wakeup =>
    apply Accounted.of_kept hsteady
    exact hkept.append rfl rfl rfl (List.append_nil _).symm
  | check now =>
    apply Accounted.of_kept hsteady
    exact hkept.checkExpired hconsistent now
  | exit => exact ⟨hsteady, fun hfalse ↦ absurd hfalse (by simp), fun _ ↦ hkept.exit hconsistent⟩

theorem accounted_run (id : ℕ) (services : Services) {inputs : List LoopInput}
    (hfree : Always step FreeDescriptors (new id services) inputs) :
    (run step (new id services) inputs).Accounted :=
  run_invariant (fun _ _ h hfree ↦ h.step hfree)
    (Accounted.of_kept (steady_new id services) (kept_new id services)) hfree

/-- If the kernel hands out free descriptors only, every accepted socket is in the table or closed, and
when the loop has ended every accepted socket is closed exactly once. -/
theorem sockets_accounted (id : ℕ) (services : Services) (inputs : List LoopInput)
    (hfree : Always step FreeDescriptors (new id services) inputs) :
    let last := run step (new id services) inputs
    (last.exited = false → ∀ conn ∈ acceptedConns last.trace,
      conn ∈ closedConns last.trace ↔ ∀ fd, last.owner fd ≠ some conn) ∧
    (last.exited = true → (acceptedConns last.trace).Perm (closedConns last.trace)) := by
  intro last
  have h : last.Accounted := accounted_run id services hfree
  refine ⟨fun hexited conn hmem ↦ ?_, h.ended⟩
  have hconsistent := h.consistent hexited
  rw [hconsistent.accepted, List.mem_range] at hmem
  constructor
  · intro hclosed fd howner
    exact (hconsistent.still_open fd conn howner).2 hclosed
  · intro hnone
    by_contra hopen
    obtain ⟨fd, howner⟩ := (h.kept hexited).owned conn hmem hopen
    exact hnone fd howner

theorem sockets_accounted_reuse :
    let last := run step (new 0 ⟨⟨∅⟩, .new, .static⟩) reuse
    (last.exited = false → ∀ conn ∈ acceptedConns last.trace,
      conn ∈ closedConns last.trace ↔ ∀ fd, last.owner fd ≠ some conn) ∧
    (last.exited = true → (acceptedConns last.trace).Perm (closedConns last.trace)) :=
  sockets_accounted 0 ⟨⟨∅⟩, .new, .static⟩ reuse
    (by decide +kernel)

end EventLoop

end WebServer
