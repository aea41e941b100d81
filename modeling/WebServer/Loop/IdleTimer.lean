import WebServer.Loop.Ownership

/-!
# The keep-alive timer

The timer of a connection is armed once, by `accept`. A check closes exactly the connections that were
accepted more than one timeout ago, whether they have been active since or not, so the timer is an
idle timer just in those runs in which no connection is active late in its life.
-/

namespace WebServer

open Bytes Execution

/-! ## Activity -/

/-- A call that received or sent at least one byte. -/
def Action.movesBytes : Action → Bool
  | recv (.received data) => data ≠ []
  | send _ accepted | sendfile _ _ accepted => accepted ≠ []
  | _ => false

/-- A call by which a connection received or sent bytes. -/
def LoopCall.isActivity (conn : ℕ) : LoopCall → Bool
  | connection _ conn' _ action => conn' = conn ∧ action.movesBytes
  | _ => false

/-- The times at which a connection was active. -/
def activityTimes (conn : ℕ) (trace : List TimedCall) : List Time :=
  (trace.filter fun timed ↦ timed.call.isActivity conn).map TimedCall.now

/-- No byte was received from a connection and none was sent on it in the timeout before `now`. -/
def Idle (trace : List TimedCall) (conn : ℕ) (now : Time) : Prop :=
  ∀ time ∈ activityTimes conn trace, time + Time.milliseconds keepAliveTimeoutMs ≤ now

instance (trace : List TimedCall) (conn : ℕ) (now : Time) : Decidable (Idle trace conn now) :=
  inferInstanceAs (Decidable (∀ time ∈ activityTimes conn trace, _ ≤ now))

namespace EventLoop

/-- The connections a step closes. -/
def newlyClosed (loop : EventLoop) (input : LoopInput) : List ℕ :=
  (closedConns (loop.step input).trace).drop (closedConns loop.trace).length

/-- A check closes idle connections only. -/
def TimeoutsIdle (loop : EventLoop) : LoopInput → Prop
  | .check now => ∀ conn ∈ newlyClosed loop (.check now), Idle loop.trace conn now
  | _ => True

/-- The connections that were accepted more than one timeout before a check are idle. -/
def DueIdle (loop : EventLoop) : LoopInput → Prop
  | .check now => loop.exited = false → ∀ entry ∈ loop.clients.entries,
      entry.2.acceptedAt + Time.milliseconds keepAliveTimeoutMs < now →
      Idle loop.trace entry.2.conn now
  | _ => True

instance (loop : EventLoop) (input : LoopInput) : Decidable (TimeoutsIdle loop input) :=
  match input with
  | .check now =>
    inferInstanceAs (Decidable (∀ conn ∈ newlyClosed loop (.check now), Idle loop.trace conn now))
  | .accept _ | .ready _ | .wakeup | .exit => inferInstanceAs (Decidable True)

/-! ## What a check closes -/

section Check

variable {loop : EventLoop} {pending : List (TimerNode TimeoutCallback)}

theorem Consistent.closedConns_foldl_fire (h : loop.Consistent pending) :
    closedConns (pending.foldl (TcpTimer.fire EventLoop.timer setTimer timeoutCallback) loop).trace =
      closedConns loop.trace ++ pending.map fun node ↦ node.callback.conn := by
  induction pending generalizing loop with
  | nil => simp
  | cons node pending ih =>
    obtain ⟨client, hclient, hguards⟩ := h.client_of_pending List.mem_cons_self
    have hclosed : closedConns
        (TcpTimer.fire EventLoop.timer setTimer timeoutCallback loop node).trace =
          closedConns loop.trace ++ [node.callback.conn] := by
      rw [h.fire_eq hclient hguards, closedConns_append, hguards.1]
      rfl
    rw [List.foldl_cons, ih h.fire, hclosed, List.append_assoc, List.map_cons]
    rfl

/-- The timers that a check fires are those of the connections accepted more than one timeout ago. -/
theorem Consistent.mem_expired_iff (h : loop.Consistent []) (now : Time) (conn : ℕ) :
    conn ∈ (loop.timer.scan now loop.timer.timerSet).1.map (fun node ↦ node.callback.conn) ↔
      ∃ entry ∈ loop.clients.entries,
        entry.2.acceptedAt + Time.milliseconds keepAliveTimeoutMs < now ∧ entry.2.conn = conn := by
  obtain ⟨hexpired, -, hlive, -⟩ := TcpTimer.scan_spec loop.timer now loop.timer.timerSet
  constructor
  · intro hmem
    obtain ⟨node, hnode, rfl⟩ := List.mem_map.mp hmem
    obtain ⟨client, hclient, hcallback, htime⟩ := (h.scan now).client_of_pending hnode
    refine ⟨⟨node.fd, client⟩, AList.mem_lookup_iff.mp hclient, ?_, ?_⟩
    · rw [← htime]
      exact (hexpired node hnode).2
    · rw [hcallback]
  · rintro ⟨⟨fd, client⟩, hentry, hdue, rfl⟩
    have harmed := h.armed fd
    rw [Option.mem_def.mp (AList.mem_lookup_iff.mpr hentry)] at harmed
    cases hnode : loop.timer.timerMap.lookup fd with
    | none =>
      rw [hnode] at harmed
      cases harmed
    | some node =>
      rw [hnode] at harmed
      cases harmed with
      | some hguards =>
        obtain ⟨hcallback, htime⟩ := hguards
        obtain ⟨-, hset, hmark⟩ := h.timer.live fd node hnode
        rw [List.append_nil] at hset
        refine List.mem_map.mpr ⟨node, ?_, by rw [hcallback]⟩
        rcases List.mem_append.mp (hlive node hset hmark) with hrest | hfired
        · refine absurd ?_ (TcpTimer.scan_rest_not_expired _ now h.timer.sorted node hrest)
          rw [htime]
          exact hdue
        · exact hfired

theorem Consistent.mem_newlyClosed_iff (h : loop.Consistent []) (hexited : loop.exited = false)
    (now : Time) (conn : ℕ) : conn ∈ newlyClosed loop (.check now) ↔
      ∃ entry ∈ loop.clients.entries,
        entry.2.acceptedAt + Time.milliseconds keepAliveTimeoutMs < now ∧ entry.2.conn = conn := by
  have hstep : loop.step (.check now) = loop.checkExpired now := by
    simp [EventLoop.step, hexited]
  have hclosed : closedConns (loop.checkExpired now).trace = closedConns loop.trace ++
      (loop.timer.scan now loop.timer.timerSet).1.map fun node ↦ node.callback.conn :=
    (h.scan now).closedConns_foldl_fire
  rw [newlyClosed, hstep, hclosed, List.drop_left, h.mem_expired_iff]

theorem timeoutsIdle_iff (h : loop.Steady) (input : LoopInput) :
    TimeoutsIdle loop input ↔ DueIdle loop input := by
  cases input with
  | check now =>
    cases hexited : loop.exited with
    | true =>
      have hstep : loop.step (.check now) = loop := by simp [EventLoop.step, hexited]
      simp [TimeoutsIdle, DueIdle, newlyClosed, hstep, hexited]
    | false =>
      simp only [TimeoutsIdle, DueIdle, (h.consistent hexited).mem_newlyClosed_iff hexited]
      constructor
      · intro hclosed _ entry hentry hdue
        exact hclosed entry.2.conn ⟨entry, hentry, hdue, rfl⟩
      · rintro hdue conn ⟨entry, hentry, htime, rfl⟩
        exact hdue hexited entry hentry htime
  | accept results => rfl
  | ready readiness => rfl
  | wakeup => rfl
  | exit => rfl

end Check

/-- In a run the timer closes idle connections only, if and only if at every check the connections
accepted more than one timeout ago have not been active in the timeout before it. -/
theorem timeouts_idle_iff_due_idle (id : ℕ) (services : Services) (inputs : List LoopInput) :
    Always step TimeoutsIdle (new id services) inputs ↔
      Always step DueIdle (new id services) inputs :=
  always_congr Steady (fun _ input h ↦ h.step input)
    (fun _ input h ↦ timeoutsIdle_iff h input) (steady_new id services) inputs

/-! ## An active connection is closed -/

/-- A connection that sends a request 20 s after its `accept`, and gets the answer at once. -/
def activeRun : List LoopInput :=
  [.accept [.connected 0 7 (lit "10.0.0.1"), .failed eagain],
    .ready
      { now := Time.seconds 20
        fd := 7
        events :=
          { epollin := true
            epollout := false
            epollrdhup := false
            epollerr := false
            epollhup := false
            epollet := false }
        recvs := [.received (lit "GET /none HTTP/1.1\r\n\r\n"), .failed eagain]
        envs := fun _ ↦ ⟨fun services ↦ services, Time.seconds 20, Time.seconds 20, fun _ ↦ none⟩
        sends := fun _ ↦ ⟨1000, 0⟩
        writeSends := fun _ ↦ ⟨1000, 0⟩ },
    .check (Time.milliseconds 30001)]

/-- About 10 s after the exchange the timer closes the connection. -/
theorem closes_active_connection :
    ¬ Always step TimeoutsIdle (new 0 ⟨⟨∅⟩, .new, .static⟩) activeRun := by
  decide +kernel

end EventLoop

end WebServer
