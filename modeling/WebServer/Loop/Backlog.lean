import WebServer.Loop.Ownership

/-!
# The backlog of the listening socket

The listening socket is registered with `EPOLLET`: `epoll_wait` reports it once for all connections
that were established before, and again only when another one is established. `Listening` puts the
socket as the kernel keeps it beside a loop, at the grain of single calls of `accept`, so that
connections may be established between any two steps. `acceptConnection` returns at the first error of
`accept`, whichever it is: after `EAGAIN` the backlog is empty, after another error it need not be, and
nothing reports the connections in it.
-/

namespace WebServer

open Bytes Execution

/-- The result is a connection; after it `acceptConnection` calls `accept` again. -/
def AcceptResult.isConnected : AcceptResult → Bool
  | connected .. => true
  | failed _ => false

/-! ## What a step leaves alone -/

namespace EventLoop

/-- How many connections the loop has accepted, and the flags that end it. -/
def control (loop : EventLoop) : ℕ × Bool × Bool := (loop.nextConn, loop.running, loop.exited)

variable (loop : EventLoop)

@[simp]
theorem control_closeConnection (conn fd : ℕ) :
    (loop.closeConnection conn fd).control = loop.control := by
  unfold closeConnection
  split <;> rfl

@[simp]
theorem control_perform (fd conn : ℕ) (action : Action) :
    (perform fd conn loop action).control = loop.control := by
  unfold perform
  split
  · exact control_closeConnection loop conn fd
  · rfl

@[simp]
theorem control_foldl_perform (fd conn : ℕ) (actions : List Action) :
    (actions.foldl (perform fd conn) loop).control = loop.control := by
  induction actions generalizing loop with
  | nil => rfl
  | cons action actions ih => exact (ih _).trans (control_perform loop fd conn action)

@[simp]
theorem control_storeServer (fd conn : ℕ) (server : HttpServer) :
    (loop.storeServer fd conn server).control = loop.control := by
  unfold storeServer
  split
  · split <;> rfl
  · rfl

theorem control_handleEvent (readiness : Readiness) :
    (loop.handleEvent readiness).control = loop.control := by
  unfold handleEvent
  dsimp only
  split
  · rfl
  · split
    · rw [control_closeConnection]
      rfl
    · rw [control_storeServer, control_foldl_perform]
      rfl

theorem control_timeoutCallback (callback : TimeoutCallback) :
    (timeoutCallback callback loop).control = loop.control := by
  unfold timeoutCallback
  rw [control_closeConnection]
  rfl

theorem control_checkExpired (now : Time) :
    (loop.checkExpired now).control = loop.control := by
  have hfire (nodes : List (TimerNode TimeoutCallback)) (loop : EventLoop) :
      (nodes.foldl (TcpTimer.fire timer setTimer timeoutCallback) loop).control = loop.control := by
    induction nodes generalizing loop with
    | nil => rfl
    | cons node nodes ih =>
      rw [List.foldl_cons, ih]
      unfold TcpTimer.fire
      dsimp only
      split
      · rfl
      · exact control_timeoutCallback _ node.callback
  exact hfire _ _

/-- Only `accept`, the wakeup and the exit change the control data of a loop. -/
theorem control_step_ready (readiness : Readiness) :
    (loop.step (.ready readiness)).control = loop.control := by
  unfold step
  split
  · rfl
  · dsimp only
    split
    · exact control_handleEvent loop readiness
    · rfl

theorem control_step_check (now : Time) : (loop.step (.check now)).control = loop.control := by
  unfold step
  split
  · rfl
  · exact control_checkExpired loop now

theorem running_step_wakeup {loop : EventLoop} (h : loop.exited = true → loop.running = false) :
    (loop.step .wakeup).running = false := by
  unfold step
  split
  · exact h ‹_›
  · rfl

theorem nextConn_step_wakeup (loop : EventLoop) : (loop.step .wakeup).nextConn = loop.nextConn := by
  unfold step
  split <;> rfl

theorem nextConn_step_exit (loop : EventLoop) : (loop.step .exit).nextConn = loop.nextConn := by
  unfold step
  split
  · rfl
  · dsimp only
    rw [closeAllConnections_eq]
    rfl

theorem running_step_exit {loop : EventLoop} (h : loop.exited = true → loop.running = false) :
    (loop.step .exit).running = false := by
  unfold step
  split
  · exact h ‹_›
  · rfl

/-! ## Calls of `accept` -/

theorem acceptConnection_append (first second : List AcceptResult)
    (h : ∀ result ∈ first, result.isConnected = true) :
    acceptConnection (first ++ second) loop =
      acceptConnection second (acceptConnection first loop) := by
  induction first generalizing loop with
  | nil => rfl
  | cons result first ih =>
    obtain ⟨hresult, hfirst⟩ := List.forall_mem_cons.mp h
    cases result with
    | connected now fd clientIp => exact ih _ hfirst
    | failed errno => exact absurd hresult Bool.false_ne_true

theorem flags_acceptConnection (results : List AcceptResult) :
    (acceptConnection results loop).control.2 = loop.control.2 := by
  induction results generalizing loop with
  | nil => rfl
  | cons result results ih =>
    cases result with
    | connected now fd clientIp =>
      rw [acceptConnection, ih, acceptOne_eq]
      rfl
    | failed errno =>
      unfold acceptConnection
      split <;> rfl

/-- `acceptConnection` takes the results one after the other. -/
theorem step_accept_append (first second : List AcceptResult)
    (h : ∀ result ∈ first, result.isConnected = true) :
    loop.step (.accept (first ++ second)) = (loop.step (.accept first)).step (.accept second) := by
  have hflags := flags_acceptConnection loop first
  obtain ⟨hrunning, hexited⟩ := Prod.mk.inj hflags
  by_cases hended : loop.exited = true
  · simp only [step, hended, if_true]
  · by_cases hon : loop.running = true
    · simp only [step, hended, hon, hrunning, hexited, if_true, if_false, Bool.false_eq_true,
        acceptConnection_append loop first second h]
    · simp only [step, hended, hon, if_false, Bool.false_eq_true, ite_self]

theorem step_accept_nil : loop.step (.accept []) = loop := by
  simp only [step, acceptConnection, ite_self]

/-- What is left unread behind an error makes no difference. -/
theorem step_accept_failed (errno : ℕ) (results : List AcceptResult) :
    loop.step (.accept (.failed errno :: results)) = loop.step (.accept [.failed errno]) := rfl

end EventLoop

/-! ## The listening socket -/

/-- The listening socket: how many established connections wait for `accept`, whether it is on the
ready list of `epoll`, and how many connections have been established and were lost to an error. -/
structure Listener where
  backlog : ℕ
  ready : Bool
  established : ℕ
  aborted : ℕ

namespace Listener

def new : Listener := ⟨0, false, 0, 0⟩

def arrive (listener : Listener) : Listener :=
  { listener with
    backlog := listener.backlog + 1
    ready := true
    established := listener.established + 1 }

/-- `epoll_wait` has reported the socket. -/
def report (listener : Listener) : Listener := { listener with ready := false }

/-- `accept` can return this; `aborts` says that its error takes a pending connection with it. -/
def CanReturn (listener : Listener) : AcceptResult → Bool → Prop
  | .connected .., _ => 0 < listener.backlog
  | .failed errno, aborts =>
    if errno = eagain then listener.backlog = 0 ∧ aborts = false
    else aborts = true → 0 < listener.backlog

instance (listener : Listener) : ∀ result aborts, Decidable (listener.CanReturn result aborts)
  | .connected .., _ => inferInstanceAs (Decidable (0 < _))
  | .failed _, _ => inferInstanceAs (Decidable (ite _ _ _))

theorem pending_of_aborts {listener : Listener} {errno : ℕ}
    (h : listener.CanReturn (.failed errno) true) : 0 < listener.backlog := by
  by_cases herrno : errno = eagain
  · exact absurd ((if_pos herrno).mp h).2 (by decide)
  · exact (if_neg herrno).mp h rfl

/-- `EAGAIN` means that the backlog is empty. -/
theorem backlog_of_eagain {listener : Listener} {aborts : Bool}
    (h : listener.CanReturn (.failed eagain) aborts) : listener.backlog = 0 ∧ aborts = false := by
  simpa only [CanReturn, if_true] using h

/-- The socket after a call of `accept`. -/
def accept (listener : Listener) : AcceptResult → Bool → Listener
  | .connected .., _ => { listener with backlog := listener.backlog - 1 }
  | .failed _, true =>
    { listener with backlog := listener.backlog - 1, aborted := listener.aborted + 1 }
  | .failed _, false => listener

end Listener

/-- Where the thread of a loop stands: in `epoll_wait`, at an entry of a batch in which the listening
socket is still to come or not, or in `acceptConnection`. -/
inductive LoopPhase where
  | waiting
  | batch (listening : Bool)
  | accepting
  deriving DecidableEq

def LoopPhase.isBatch : LoopPhase → Bool
  | batch _ => true
  | _ => false

/-- A loop with its listening socket. -/
structure Listening where
  loop : EventLoop
  phase : LoopPhase
  listener : Listener

/-- What the kernel and the thread of the loop do next. `wait` says whether the batch has an entry for
the listening socket, `listening` takes this entry, and `check` ends the iteration. -/
inductive ListenInput where
  | arrive
  | wait (listening : Bool)
  | listening
  | accept (result : AcceptResult) (aborts : Bool)
  | ready (readiness : Readiness)
  | wakeup
  | check (now : Time)
  | exit

/-- The result that a step of `acceptConnection` takes. -/
def ListenInput.acceptResult : ListenInput → Option AcceptResult
  | accept result _ => some result
  | _ => none

namespace Listening

def new (id : ℕ) (services : Services) : Listening := ⟨.new id services, .waiting, .new⟩

/-- One step of `EventLoop::loop`; an input that cannot come in this state changes nothing. -/
def step (state : Listening) : ListenInput → Listening
  | .arrive => { state with listener := state.listener.arrive }
  | .wait listening =>
    if state.phase = .waiting ∧ state.loop.running = true ∧
        (listening = true → state.listener.ready = true) then
      { state with
        phase := .batch listening
        listener := if listening then state.listener.report else state.listener }
    else state
  | .listening =>
    if state.phase = .batch true ∧ state.loop.running = true then
      { state with phase := .accepting }
    else state
  | .accept result aborts =>
    if state.phase = .accepting ∧ state.listener.CanReturn result aborts then
      { loop := state.loop.step (.accept [result])
        phase := if result.isConnected then .accepting else .batch false
        listener := state.listener.accept result aborts }
    else state
  | .ready readiness =>
    if state.phase.isBatch then { state with loop := state.loop.step (.ready readiness) } else state
  | .wakeup =>
    -- the `break` leaves the rest of the batch
    if state.phase.isBatch then
      { state with loop := state.loop.step .wakeup, phase := .batch false }
    else state
  | .check now =>
    if state.phase = .batch false then
      { state with loop := state.loop.step (.check now), phase := .waiting }
    else state
  | .exit =>
    if state.phase = .waiting then { state with loop := state.loop.step .exit } else state

/-! ## What the loop owes to its connections -/

/-- The loop waits, and the listening socket is not reported before a connection is established. -/
def Blocked (state : Listening) : Prop :=
  state.phase = .waiting ∧ state.loop.running = true ∧ state.listener.ready = false

instance (state : Listening) : Decidable state.Blocked := inferInstanceAs (Decidable (_ ∧ _ ∧ _))

/-- A blocked loop has accepted every connection that was established and not lost to an error. -/
def NoneLeft (state : Listening) : Prop :=
  state.Blocked → state.listener.backlog = 0 ∧
    state.listener.established = state.loop.nextConn + state.listener.aborted

/-- If `acceptConnection` returns in this step, `accept` has just reported an empty backlog. -/
def ReturnsDrained (state : Listening) (input : ListenInput) : Prop :=
  state.phase = .accepting → (state.step input).phase ≠ .accepting →
    input = .accept (.failed eagain) false ∧ state.listener.backlog = 0

/-- What is asked of every step of a run. -/
def AcceptsAll (state : Listening) (input : ListenInput) : Prop :=
  state.ReturnsDrained input ∧ (state.step input).NoneLeft

/-- `accept` returns no error but `EAGAIN`. -/
def OnlyEagain (state : Listening) (input : ListenInput) : Prop :=
  ∀ errno aborts, input = .accept (.failed errno) aborts → state.phase = .accepting →
    state.listener.CanReturn (.failed errno) aborts → errno = eagain

/-- `accept` returns an error in front of a pending connection, and none was established since the
report. -/
def FailsInFront (state : Listening) (input : ListenInput) : Prop :=
  ∃ errno aborts, input = .accept (.failed errno) aborts ∧ state.phase = .accepting ∧
    state.listener.CanReturn (.failed errno) aborts ∧ state.listener.ready = false ∧
    aborts.toNat < state.listener.backlog

/-! ## Invariants -/

/-- Every established connection is accepted, lost to an error or pending. -/
structure Accounted (state : Listening) : Prop where
  established : state.listener.established =
    state.loop.nextConn + state.listener.aborted + state.listener.backlog
  accepting : state.phase = .accepting → state.loop.running = true
  exited : state.loop.exited = true → state.loop.running = false

/-- As long as connections are pending, the loop is going to call `accept`. -/
def Prompted (state : Listening) : Prop :=
  0 < state.listener.backlog → state.loop.running = true → state.listener.ready = true ∨
    state.phase = .batch true ∨ state.phase = .accepting

/-- Outside `acceptConnection` and before it only the ready list can remember a pending connection. -/
theorem Prompted.ready {state : Listening} (h : state.Prompted)
    (hpending : 0 < state.listener.backlog) (hrunning : state.loop.running = true)
    (hbatch : state.phase ≠ .batch true) (haccepting : state.phase ≠ .accepting) :
    state.listener.ready = true := by
  obtain hready | hphase | hphase := h hpending hrunning
  · exact hready
  · exact absurd hphase hbatch
  · exact absurd hphase haccepting

theorem accounted_new (id : ℕ) (services : Services) : (new id services).Accounted :=
  ⟨rfl, nofun, nofun⟩

theorem prompted_new (id : ℕ) (services : Services) : (new id services).Prompted := nofun

/-- Only the control data of the loop matters to the invariant. -/
theorem Accounted.of_control {state : Listening} (h : state.Accounted) {loop : EventLoop}
    {phase : LoopPhase} (hloop : loop.control = state.loop.control)
    (hphase : phase = .accepting → state.loop.running = true) :
    Accounted { state with loop := loop, phase := phase } := by
  obtain ⟨hcount, hflags⟩ := Prod.mk.inj hloop
  obtain ⟨hrunning, hexited⟩ := Prod.mk.inj hflags
  exact ⟨hcount ▸ h.established, hrunning ▸ hphase, hrunning ▸ hexited ▸ h.exited⟩

/-- A connection moves from the backlog to the table of the loop. -/
theorem step_accept_connected {state : Listening} (h : state.Accounted)
    (hphase : state.phase = .accepting) (now : Time) (fd : ℕ) (clientIp : Bytes) :
    state.loop.step (.accept [.connected now fd clientIp]) =
      state.loop.acceptOne now fd clientIp := by
  have hrunning := h.accepting hphase
  have hexited : ¬ state.loop.exited = true := fun hexited ↦
    absurd ((h.exited hexited).symm.trans hrunning) Bool.false_ne_true
  unfold EventLoop.step
  rw [if_neg hexited]
  exact if_pos hrunning

theorem control_step_failed (loop : EventLoop) (errno : ℕ) :
    (loop.step (.accept [.failed errno])).control = loop.control := by
  unfold EventLoop.step
  split
  · rfl
  · dsimp only
    split
    · unfold EventLoop.acceptConnection
      split <;> rfl
    · rfl

theorem Accounted.accept {state : Listening} (h : state.Accounted)
    (hphase : state.phase = .accepting) {result : AcceptResult} {aborts : Bool}
    (hresult : state.listener.CanReturn result aborts) :
    Accounted
      { loop := state.loop.step (.accept [result])
        phase := if result.isConnected then .accepting else .batch false
        listener := state.listener.accept result aborts } := by
  have hestablished := h.established
  cases result with
  | connected now fd clientIp =>
    have hpending : 0 < state.listener.backlog := hresult
    rw [step_accept_connected h hphase, EventLoop.acceptOne_eq]
    refine ⟨?_, fun _ ↦ h.accepting hphase, h.exited⟩
    simp only [Listener.accept]
    omega
  | failed errno =>
    obtain ⟨hcount, hflags⟩ := Prod.mk.inj (control_step_failed state.loop errno)
    obtain ⟨hrunning, hexited⟩ := Prod.mk.inj hflags
    refine ⟨?_, nofun, hrunning ▸ hexited ▸ h.exited⟩
    cases aborts with
    | false => exact hcount ▸ hestablished
    | true =>
      have hpending := Listener.pending_of_aborts hresult
      simp only [Listener.accept, hcount]
      omega

/-- The ways a step of the loop can go. -/
inductive Stepped (state : Listening) : ListenInput → Listening → Prop where
  | ignored (input : ListenInput) : Stepped state input state
  | arrived : Stepped state .arrive { state with listener := state.listener.arrive }
  | reported (hphase : state.phase = .waiting) : Stepped state (.wait true)
      { state with phase := .batch true, listener := state.listener.report }
  | passed (hphase : state.phase = .waiting) :
      Stepped state (.wait false) { state with phase := .batch false }
  | entered (hrunning : state.loop.running = true) :
      Stepped state .listening { state with phase := .accepting }
  | accepted {result : AcceptResult} {aborts : Bool} (hphase : state.phase = .accepting)
      (hcall : state.listener.CanReturn result aborts) : Stepped state (.accept result aborts)
      { loop := state.loop.step (.accept [result])
        phase := if result.isConnected then .accepting else .batch false
        listener := state.listener.accept result aborts }
  | worked {input : ListenInput} {loop : EventLoop} (hloop : loop.control = state.loop.control) :
      Stepped state input { state with loop := loop }
  | checked {input : ListenInput} {loop : EventLoop} (hloop : loop.control = state.loop.control)
      (hphase : state.phase = .batch false) :
      Stepped state input { state with loop := loop, phase := .waiting }
  | stopped {input : ListenInput} {loop : EventLoop} {phase : LoopPhase}
      (hcount : loop.nextConn = state.loop.nextConn) (hphase : phase ≠ .accepting)
      (hrunning : (state.loop.exited = true → state.loop.running = false) → loop.running = false) :
      Stepped state input { state with loop := loop, phase := phase }

theorem step_stepped (state : Listening) (input : ListenInput) :
    Stepped state input (state.step input) := by
  unfold step
  cases input with
  | arrive => exact .arrived
  | wait listening =>
    dsimp only
    split
    · rename_i hwait
      cases listening with
      | true => exact .reported hwait.1
      | false => exact .passed hwait.1
    · exact .ignored _
  | listening =>
    dsimp only
    split
    · rename_i hentry
      exact .entered hentry.2
    · exact .ignored _
  | accept result aborts =>
    dsimp only
    split
    · rename_i hcall
      exact .accepted hcall.1 hcall.2
    · exact .ignored _
  | ready readiness =>
    dsimp only
    split
    · exact .worked (EventLoop.control_step_ready _ readiness)
    · exact .ignored _
  | wakeup =>
    dsimp only
    split
    · exact .stopped (EventLoop.nextConn_step_wakeup _) (by decide) EventLoop.running_step_wakeup
    · exact .ignored _
  | check now =>
    dsimp only
    split
    · rename_i hbatch
      exact .checked (EventLoop.control_step_check _ now) hbatch
    · exact .ignored _
  | exit =>
    dsimp only
    split
    · rename_i hphase
      exact .stopped (EventLoop.nextConn_step_exit _) (hphase ▸ by decide)
        EventLoop.running_step_exit
    · exact .ignored _

theorem Accounted.step {state : Listening} (h : state.Accounted) (input : ListenInput) :
    (state.step input).Accounted := by
  have hestablished := h.established
  have hstepped := step_stepped state input
  generalize state.step input = state' at hstepped ⊢
  cases hstepped with
  | ignored => exact h
  | arrived =>
    refine ⟨?_, h.accepting, h.exited⟩
    simp only [Listener.arrive]
    omega
  | reported | passed => exact ⟨hestablished, nofun, h.exited⟩
  | entered hrunning => exact ⟨hestablished, fun _ ↦ hrunning, h.exited⟩
  | accepted hphase hcall => exact h.accept hphase hcall
  | worked hloop => exact h.of_control hloop h.accepting
  | checked hloop => exact h.of_control hloop nofun
  | stopped hcount hphase hrunning =>
    exact ⟨hcount ▸ hestablished, fun haccepting ↦ absurd haccepting hphase,
      fun _ ↦ hrunning h.exited⟩

/-- Only an error in front of a pending connection ends the calls of `accept` too early. -/
theorem Prompted.step {state : Listening} (h : state.Prompted) (hstate : state.Accounted)
    {input : ListenInput} (hinput : ¬ state.FailsInFront input) : (state.step input).Prompted := by
  have hstepped := step_stepped state input
  generalize state.step input = state' at hstepped ⊢
  intro hpending hrunning
  cases hstepped with
  | ignored => exact h hpending hrunning
  | arrived => exact .inl rfl
  | reported => exact .inr (.inl rfl)
  | passed hphase =>
    exact .inl (h.ready hpending hrunning (hphase ▸ by decide) (hphase ▸ by decide))
  | entered => exact .inr (.inr rfl)
  | @accepted result aborts hphase hcall =>
    cases result with
    | connected now fd clientIp => exact .inr (.inr rfl)
    | failed errno =>
      -- if nothing reports the socket again, this error came in front of what is pending
      by_contra hsilent
      have hready : state.listener.ready = false := by
        cases aborts <;> simpa [Listener.accept, AcceptResult.isConnected] using hsilent
      refine hinput ⟨errno, aborts, rfl, hphase, hcall, hready, ?_⟩
      cases aborts with
      | false => exact hpending
      | true =>
        have hleft : 0 < state.listener.backlog - 1 := hpending
        simp only [Bool.toNat_true]
        omega
  | worked hloop =>
    have hstays := congrArg (fun control ↦ control.2.1) hloop
    exact h hpending (hstays.symm.trans hrunning)
  | checked hloop hphase =>
    have hstays := congrArg (fun control ↦ control.2.1) hloop
    exact .inl (h.ready hpending (hstays.symm.trans hrunning) (hphase ▸ by decide)
      (hphase ▸ by decide))
  | stopped hcount hphase hstops =>
    exact absurd ((hstops hstate.exited).symm.trans hrunning) Bool.false_ne_true

/-! ## Runs -/

/-- The invariant of the runs in which no error comes in front of a pending connection. -/
structure Attended (state : Listening) : Prop where
  accounted : state.Accounted
  prompted : state.Prompted

theorem attended_new (id : ℕ) (services : Services) : (new id services).Attended :=
  ⟨accounted_new id services, prompted_new id services⟩

theorem Attended.step {state : Listening} (h : state.Attended) {input : ListenInput}
    (hinput : ¬ state.FailsInFront input) : (state.step input).Attended :=
  ⟨h.accounted.step input, h.prompted.step h.accounted hinput⟩

theorem Attended.noneLeft {state : Listening} (h : state.Attended) : state.NoneLeft := by
  rintro ⟨hphase, hrunning, hready⟩
  have hempty : state.listener.backlog = 0 := by
    by_contra hpending
    have hprompt := h.prompted.ready (Nat.pos_of_ne_zero hpending) hrunning
      (hphase ▸ by decide) (hphase ▸ by decide)
    exact absurd (hready.symm.trans hprompt) Bool.false_ne_true
  refine ⟨hempty, ?_⟩
  have hestablished := h.accounted.established
  rwa [hempty, Nat.add_zero] at hestablished

/-- Where `EAGAIN` is the only error, no error comes in front of a pending connection. -/
theorem OnlyEagain.not_failsInFront {state : Listening} {input : ListenInput}
    (h : state.OnlyEagain input) : ¬ state.FailsInFront input := by
  rintro ⟨errno, aborts, hinput, hphase, hcall, -, hfront⟩
  obtain rfl := h errno aborts hinput hphase hcall
  obtain ⟨hempty, -⟩ := Listener.backlog_of_eagain hcall
  omega

theorem step_accept {state : Listening} {result : AcceptResult} {aborts : Bool}
    (hphase : state.phase = .accepting) (hcall : state.listener.CanReturn result aborts) :
    state.step (.accept result aborts) =
      { loop := state.loop.step (.accept [result])
        phase := if result.isConnected then .accepting else .batch false
        listener := state.listener.accept result aborts } := if_pos ⟨hphase, hcall⟩

/-- Inside `acceptConnection` only connections and calls of `accept` happen. -/
theorem step_of_accepting {state : Listening} {input : ListenInput}
    (hphase : state.phase = .accepting) (hcall : ∀ result aborts, input = .accept result aborts →
      ¬ state.listener.CanReturn result aborts) : (state.step input).phase = .accepting := by
  unfold step
  cases input with
  | arrive => exact hphase
  | accept result aborts =>
    dsimp only
    rw [if_neg fun h ↦ hcall result aborts rfl h.2]
    exact hphase
  | wait | listening | ready | wakeup | check | exit => simp [hphase, LoopPhase.isBatch]

/-- A connection is established, or `accept` returns to `acceptConnection`. -/
def InAccept (state : Listening) (input : ListenInput) : Prop :=
  input = .arrive ∨ ∃ result aborts, input = .accept result aborts ∧ state.phase = .accepting ∧
    state.listener.CanReturn result aborts

/-- Once `acceptConnection` has returned, `accept` is not called. -/
theorem run_returned {state : Listening} {inputs : List ListenInput}
    (hphase : state.phase ≠ .accepting) (hcalls : Always step InAccept state inputs) :
    inputs.filterMap ListenInput.acceptResult = [] ∧ (run step state inputs).loop = state.loop := by
  induction inputs generalizing state with
  | nil => exact ⟨rfl, rfl⟩
  | cons input inputs ih =>
    obtain rfl | ⟨result, aborts, -, haccepting, -⟩ := hcalls.1
    · exact ih hphase hcalls.2
    · exact absurd haccepting hphase

/-- The calls of `accept` that a thread makes in `acceptConnection`, with connections established
between them, are one call of `acceptConnection` with their results. -/
theorem run_accepting {state : Listening} {inputs : List ListenInput}
    (hphase : state.phase = .accepting) (hcalls : Always step InAccept state inputs) :
    (run step state inputs).loop =
      state.loop.step (.accept (inputs.filterMap ListenInput.acceptResult)) := by
  induction inputs generalizing state with
  | nil => exact (EventLoop.step_accept_nil state.loop).symm
  | cons input inputs ih =>
    obtain hinput | ⟨result, aborts, rfl, -, hcall⟩ := hcalls.1
    · subst hinput
      exact ih hphase hcalls.2
    · have hrest := hcalls.2
      rw [run_cons]
      rw [step_accept hphase hcall] at hrest ⊢
      cases result with
      | connected now fd clientIp =>
        rw [ih rfl hrest]
        exact (EventLoop.step_accept_append state.loop [.connected now fd clientIp] _
          (by simp [AcceptResult.isConnected])).symm
      | failed errno =>
        obtain ⟨-, hloop⟩ := run_returned (show LoopPhase.batch false ≠ .accepting by decide) hrest
        rw [hloop]
        exact (EventLoop.step_accept_failed state.loop errno _).symm

/-- `acceptConnection` returns at every error, and at nothing else. -/
theorem returnsDrained_iff (state : Listening) (input : ListenInput) :
    state.ReturnsDrained input ↔ state.OnlyEagain input := by
  constructor
  · rintro hdrained errno aborts rfl hphase hcall
    have hreturns : (state.step (.accept (.failed errno) aborts)).phase ≠ .accepting := by
      rw [step_accept hphase hcall]
      exact nofun
    have hinput := (hdrained hphase hreturns).1
    exact AcceptResult.failed.inj (ListenInput.accept.inj hinput).1
  · intro honly hphase hreturns
    by_contra hother
    refine hreturns (step_of_accepting hphase fun result aborts hinput hcall ↦ ?_)
    cases result with
    | connected now fd clientIp =>
      rw [hinput, step_accept hphase hcall] at hreturns
      exact hreturns rfl
    | failed errno =>
      obtain rfl := honly errno aborts hinput hphase hcall
      obtain ⟨hempty, rfl⟩ := Listener.backlog_of_eagain hcall
      exact hother ⟨hinput, hempty⟩

/-- In every run, every call of `acceptConnection` returns on an empty backlog and no connection is
left unaccepted when the loop blocks, if and only if `accept` never returns an error other than
`EAGAIN`. For the second half it is enough that no error comes in front of pending connections. -/
theorem accepts_all_iff (id : ℕ) (services : Services) (inputs : List ListenInput) :
    (Always step AcceptsAll (new id services) inputs ↔
        Always step OnlyEagain (new id services) inputs) ∧
      (Always step (fun state input ↦ ¬ state.FailsInFront input) (new id services) inputs →
        Always step (fun state input ↦ (state.step input).NoneLeft) (new id services) inputs) := by
  constructor
  · refine always_congr_of_kept Attended (fun state input h honly ↦ h.step honly.not_failsInFront)
      (fun state input h ↦ ?_) (attended_new id services) inputs
    rw [AcceptsAll, returnsDrained_iff]
    exact and_iff_left_of_imp fun honly ↦ (h.step honly.not_failsInFront).noneLeft
  · exact always_of_kept Attended (fun state input h hinput ↦ h.step hinput)
      (fun state input h hinput ↦ (h.step hinput).noneLeft) (attended_new id services)

/-- An error in front of pending connections strands them: after the iteration the loop blocks. -/
theorem FailsInFront.blocked {state : Listening} (hstate : state.Accounted) {input : ListenInput}
    (h : state.FailsInFront input) (now : Time) :
    ((state.step input).step (.check now)).Blocked ∧
      0 < ((state.step input).step (.check now)).listener.backlog := by
  obtain ⟨errno, aborts, rfl, hphase, hcall, hready, hfront⟩ := h
  rw [step_accept hphase hcall]
  have hcheck := EventLoop.control_step_check (state.loop.step (.accept [.failed errno])) now
  have hrunning := congrArg (fun control ↦ control.2.1)
    (hcheck.trans (control_step_failed state.loop errno))
  refine ⟨⟨rfl, hrunning.trans (hstate.accepting hphase), ?_⟩, ?_⟩
  · cases aborts <;> exact hready
  · cases aborts with
    | false => exact hfront
    | true => exact Nat.sub_pos_of_lt hfront

/-- Two connections are established, and the first is lost to an `ECONNABORTED`. -/
def abortedRun : List ListenInput :=
  [.arrive, .arrive, .wait true, .listening, .accept (.failed 103) true, .check 0]

/-- The second connection waits in the backlog while the loop blocks. -/
theorem strands_second_connection :
    ¬ ∀ inputs, Always step AcceptsAll (new 0 ⟨⟨∅⟩, .new, .static⟩) inputs := by
  intro h
  obtain ⟨-, -, -, -, -, ⟨-, hleft⟩, -⟩ := h abortedRun
  have hblocked : (run step (new 0 ⟨⟨∅⟩, .new, .static⟩) abortedRun).Blocked := by decide
  exact absurd (hleft hblocked).1 (by decide)

end Listening

end WebServer
