import WebServer.Loop.Backlog
import WebServer.Loop.Lifetime
import WebServer.Loop.NextTimeout

/-!
# Rounds of the loop

A round of `loop` asks the timers how long it may sleep, waits for events, handles the batch and checks
the timers. The kernel wakes it in time up to a delay, and the batch takes its time, too. No connection
outlives its timeout by more than these: the sleep ends before the earliest deadline of the map, and when
the loop tests its condition again, every connection that is left has time.
-/

namespace WebServer

open Bytes Execution

/-- An entry of a batch of `epoll_wait`, with the results of the calls made for it. -/
inductive ReadyEntry where
  | accept (results : List AcceptResult)
  | ready (readiness : Readiness)
  | wakeup

/-- The times at which a call of `acceptConnection` gets connections. -/
def AcceptResult.times : List AcceptResult → List Time
  | .connected now _ _ :: results => now :: times results
  | .failed _ :: _ => []
  | [] => []

namespace ReadyEntry

def input : ReadyEntry → LoopInput
  | accept results => .accept results
  | ready readiness => .ready readiness
  | wakeup => .wakeup

def times : ReadyEntry → List Time
  | accept results => AcceptResult.times results
  | ready _ | wakeup => []

end ReadyEntry

/-- `epoll_wait` fails, and the loop goes on at once, or the batch is handled and the timers are checked
at the end. -/
inductive RoundOutcome where
  | failed
  | handled (batch : List ReadyEntry) (checkedAt : Time)

/-- The clock is read by `getNextTimeout`, and stands at `wokenAt` when `epoll_wait` returns. -/
structure Round where
  askedAt : Time
  wokenAt : Time
  outcome : RoundOutcome

namespace Round

def inputs (round : Round) : List LoopInput :=
  match round.outcome with
  | .failed => []
  | .handled batch checkedAt => batch.map ReadyEntry.input ++ [.check checkedAt]

def finishedAt (round : Round) : Time :=
  match round.outcome with
  | .failed => round.wokenAt
  | .handled _ checkedAt => checkedAt

end Round

/-- A loop that tests the condition of `loop` at a time. -/
structure TestedLoop where
  loop : EventLoop
  testedAt : Time

namespace TestedLoop

def round (tested : TestedLoop) (round : Round) : TestedLoop where
  loop := run EventLoop.step tested.loop round.inputs
  testedAt := round.finishedAt

/-- What `epoll_wait` is told in a round. -/
def timeoutMs (tested : TestedLoop) (round : Round) : ℤ :=
  (tested.loop.timer.getNextTimeout round.askedAt).toInt

/-- The loop is woken at most `delay` after its timeout, a signal interrupts a wait before the timeout
only, and a batch takes at most the time `busy`. -/
structure Prompt (delay busy : Time) (tested : TestedLoop) (round : Round) : Prop where
  running : tested.loop.running = true
  asked : tested.testedAt ≤ round.askedAt ∧ round.askedAt ≤ tested.testedAt + delay
  waited : round.askedAt ≤ round.wokenAt
  woken : tested.timeoutMs round ≠ -1 →
    round.wokenAt ≤ round.askedAt + Time.milliseconds (tested.timeoutMs round) + delay
  interrupted : round.outcome = .failed → tested.timeoutMs round ≠ 0 ∧
    (tested.timeoutMs round ≠ -1 →
      round.wokenAt ≤ round.askedAt + Time.milliseconds (tested.timeoutMs round))
  handled : ∀ batch checkedAt, round.outcome = .handled batch checkedAt →
    round.wokenAt ≤ checkedAt ∧ checkedAt ≤ round.wokenAt + busy ∧
      ∀ entry ∈ batch, ∀ time ∈ entry.times, round.wokenAt ≤ time ∧ time ≤ checkedAt

end TestedLoop

/-- Whole milliseconds fit in the time that remains. -/
theorem TcpTimer.add_remaining_le (now expireTime : Time) :
    now + Time.milliseconds (remaining now expireTime) ≤ max now expireTime := by
  unfold Time at now expireTime
  unfold remaining Time.milliseconds
  rcases le_or_gt expireTime now with hpast | hahead
  · have hnone := Time.toMilliseconds_nonpos (Int.sub_nonpos_of_le hpast)
    rw [max_eq_left hnone, Int.zero_mul, Int.add_zero]
    exact Int.le_max_left ..
  · have hspan : 0 ≤ expireTime - now := Int.sub_nonneg_of_le hahead.le
    have hwhole : (expireTime - now) / 1000000 * 1000000 ≤ expireTime - now :=
      Int.ediv_mul_le _ (by decide)
    rw [Time.toMilliseconds_of_nonneg hspan, max_eq_right (Int.ediv_nonneg hspan (by decide)),
      max_eq_right hahead.le]
    exact Int.add_le_of_le_sub_left hwhole

namespace EventLoop

/-- At the time `latest` no connection is older than `limit`, and no timer was set later. -/
structure Within (latest limit : Time) (loop : EventLoop) : Prop where
  young : ∀ fd client, loop.clients.lookup fd = some client → latest ≤ client.acceptedAt + limit
  nodes : ∀ node ∈ loop.timer.timerSet,
    node.expireTime ≤ latest + Time.milliseconds keepAliveTimeoutMs

variable {loop loop' : EventLoop} {latest limit : Time} {fd : ℕ} {client : Client}

theorem Within.of_subset (h : loop.Within latest limit)
    (hclients : ∀ fd client, loop'.clients.lookup fd = some client →
      ∃ old, loop.clients.lookup fd = some old ∧ client.acceptedAt = old.acceptedAt)
    (hset : loop'.timer.timerSet ⊆ loop.timer.timerSet) : loop'.Within latest limit where
  young fd client hclient := by
    obtain ⟨old, hold, htime⟩ := hclients fd client hclient
    rw [htime]
    exact h.young fd old hold
  nodes node hmem := h.nodes node (hset hmem)

/-! ## The operations -/

theorem Within.closeConnection (h : loop.Within latest limit)
    (hclient : loop.clients.lookup fd = some client) :
    (loop.closeConnection client.conn fd).Within latest limit := by
  rw [closeConnection_eq _ hclient]
  apply h.of_subset
  · intro fd' client' hlookup
    exact ⟨client', (lookup_erase_eq_some.mp hlookup).2, rfl⟩
  · dsimp only
    rw [TcpTimer.timerSet_removeTimer]
    exact List.Subset.refl _

theorem Within.acceptOne (h : loop.Within latest limit) {now : Time} (hlimit : latest ≤ now + limit)
    (hlatest : now ≤ latest) (fd : ℕ) (clientIp : Bytes) :
    (loop.acceptOne now fd clientIp).Within latest limit := by
  rw [acceptOne_eq]
  apply Within.mk
  · intro fd' client hlookup
    dsimp only at hlookup
    by_cases hfd : fd' = fd
    · rw [hfd, AList.lookup_insert] at hlookup
      obtain rfl := Option.some.inj hlookup
      exact hlimit
    · rw [AList.lookup_insert_ne hfd] at hlookup
      exact h.young fd' client hlookup
  · intro node hmem
    dsimp only at hmem
    obtain rfl | hold := TcpTimer.mem_timerSet_addTimer.mp hmem
    · exact Int.add_le_add_right hlatest _
    · exact h.nodes node hold

theorem Within.acceptConnection (h : loop.Within latest limit) {results : List AcceptResult}
    (htimes : ∀ time ∈ AcceptResult.times results, latest ≤ time + limit ∧ time ≤ latest) :
    (acceptConnection results loop).Within latest limit := by
  induction results generalizing loop with
  | nil => exact h
  | cons result results ih =>
    cases result with
    | connected now fd clientIp =>
      obtain ⟨⟨hlimit, hlatest⟩, hrest⟩ := List.forall_mem_cons.mp htimes
      exact ih (h.acceptOne hlimit hlatest fd clientIp) hrest
    | failed errno =>
      unfold EventLoop.acceptConnection
      split
      · exact h
      · exact h.of_subset (fun fd client hlookup ↦ ⟨client, hlookup, rfl⟩) (List.Subset.refl _)

theorem Within.handleEvent (h : loop.Within latest limit) (hconsistent : loop.Consistent [])
    (readiness : Readiness) : (loop.handleEvent readiness).Within latest limit := by
  have hsame (services : Services) (calls : List TimedCall) : Within latest limit
      { loop with now := readiness.now, services := services, trace := calls } :=
    h.of_subset (fun fd client hlookup ↦ ⟨client, hlookup, rfl⟩) (List.Subset.refl _)
  obtain heq | ⟨client, services, actions, hclient, heq | ⟨server, heq⟩⟩ :=
    handleEvent_cases hconsistent readiness
  · rw [heq]
    exact hsame loop.services loop.trace
  · rw [heq]
    exact (hsame services _).closeConnection hclient
  · rw [heq]
    apply (hsame services loop.trace).of_subset
    · intro fd other hlookup
      by_cases hfd : fd = readiness.fd
      · subst hfd
        obtain rfl := Option.some.inj ((AList.lookup_insert _).symm.trans hlookup)
        exact ⟨client, hclient, rfl⟩
      · exact ⟨other, (AList.lookup_insert_ne hfd).symm.trans hlookup, rfl⟩
    · exact List.Subset.refl _

/-- A check leaves what has time. -/
theorem Within.checkExpired (h : loop.Within latest limit) (hconsistent : loop.Consistent []) :
    (loop.checkExpired latest).Within latest (Time.milliseconds keepAliveTimeoutMs) := by
  apply Within.mk
  · exact fun fd client hlookup ↦ (hconsistent.lookup_checkExpired latest).mp hlookup |>.2
  · obtain ⟨hset, -⟩ := foldl_fire_spec (hconsistent.scan latest)
    obtain ⟨-, -, -, hsuffix⟩ := TcpTimer.scan_spec loop.timer latest loop.timer.timerSet
    have hset : (loop.checkExpired latest).timer.timerSet =
        (loop.timer.scan latest loop.timer.timerSet).2 := hset
    rw [hset]
    exact fun node hmem ↦ h.nodes node (hsuffix.subset hmem)

/-- A loop that goes on. -/
structure Going (loop : EventLoop) : Prop extends Steady loop where
  exited : loop.exited = false

theorem going_new (id : ℕ) (services : Services) : (new id services).Going :=
  ⟨steady_new id services, rfl⟩

theorem exited_acceptConnection (results : List AcceptResult) (loop : EventLoop) :
    (acceptConnection results loop).exited = loop.exited := by
  induction results generalizing loop with
  | nil => rfl
  | cons result results ih =>
    cases result with
    | connected now fd clientIp => exact ih _
    | failed errno =>
      unfold acceptConnection
      split <;> rfl

theorem exited_of_control (h : loop'.control = loop.control) : loop'.exited = loop.exited :=
  congrArg (fun control ↦ control.2.2) h

theorem Going.check (h : loop.Going) (now : Time) : (loop.step (.check now)).Going :=
  ⟨h.toSteady.step _, (exited_of_control (control_step_check loop now)).trans h.exited⟩

theorem Going.entry (h : loop.Going) (entry : ReadyEntry) : (loop.step entry.input).Going := by
  refine ⟨h.toSteady.step _, ?_⟩
  cases entry with
  | accept results =>
    unfold ReadyEntry.input EventLoop.step
    rw [if_neg (by simp [h.exited])]
    dsimp only
    split
    · exact (exited_acceptConnection results loop).trans h.exited
    · exact h.exited
  | ready readiness =>
    exact (exited_of_control (control_step_ready loop readiness)).trans h.exited
  | wakeup =>
    unfold ReadyEntry.input EventLoop.step
    rw [if_neg (by simp [h.exited])]
    exact h.exited

theorem Within.entry (h : loop.Within latest limit) (hgoing : loop.Going) {entry : ReadyEntry}
    (htimes : ∀ time ∈ entry.times, latest ≤ time + limit ∧ time ≤ latest) :
    (loop.step entry.input).Within latest limit := by
  unfold EventLoop.step
  rw [if_neg (by simp [hgoing.exited])]
  cases entry with
  | accept results =>
    unfold ReadyEntry.input
    dsimp only
    split
    · exact h.acceptConnection htimes
    · exact h
  | ready readiness =>
    unfold ReadyEntry.input
    dsimp only
    split
    · exact h.handleEvent (hgoing.consistent hgoing.exited) readiness
    · exact h
  | wakeup => exact h.of_subset (fun fd client hlookup ↦ ⟨client, hlookup, rfl⟩) (List.Subset.refl _)

/-- A batch adds no older connections. -/
theorem Within.batch (h : loop.Within latest limit) (hgoing : loop.Going) {batch : List ReadyEntry}
    (htimes : ∀ entry ∈ batch, ∀ time ∈ entry.times, latest ≤ time + limit ∧ time ≤ latest) :
    (run step loop (batch.map ReadyEntry.input)).Within latest limit ∧
      (run step loop (batch.map ReadyEntry.input)).Going := by
  induction batch generalizing loop with
  | nil => exact ⟨h, hgoing⟩
  | cons entry batch ih =>
    obtain ⟨hentry, hbatch⟩ := List.forall_mem_cons.mp htimes
    exact ih (h.entry hgoing hentry) (hgoing.entry entry) hbatch

/-! ## The sleep -/

/-- The loop sleeps no longer than until the deadline of a connection, if that is not over. -/
theorem Within.sleep_le (h : loop.Within latest limit) (hgoing : loop.Going) {asked : Time}
    (hasked : latest ≤ asked) (hclient : loop.clients.lookup fd = some client) :
    0 ≤ (loop.timer.getNextTimeout asked).toInt ∧
      asked + Time.milliseconds (loop.timer.getNextTimeout asked).toInt ≤
        max asked (client.acceptedAt + Time.milliseconds keepAliveTimeoutMs) := by
  have hconsistent := hgoing.consistent hgoing.exited
  obtain ⟨node, hnode, -, htime⟩ := hconsistent.node_of_client hclient
  have hnear : ∀ node ∈ loop.timer.timerSet, node.expireTime < asked + Time.milliseconds (2 ^ 31) := by
    intro other hmem
    have hspan : Time.milliseconds keepAliveTimeoutMs < Time.milliseconds (2 ^ 31) := by decide
    exact Int.lt_of_le_of_lt (h.nodes other hmem) (Int.add_lt_add_of_le_of_lt hasked hspan)
  have htells := hconsistent.timer.tellsNext hnear
  have hmap : loop.timer.timerMap ≠ ∅ := by
    intro hempty
    rw [hempty, AList.lookup_empty] at hnode
    exact absurd hnode (by simp)
  obtain ⟨first, hfirst, hanswer⟩ := htells.earliest hmap
  rw [hanswer]
  constructor
  · exact Int.le_max_left ..
  · calc asked + Time.milliseconds (TcpTimer.remaining asked first.expireTime)
        ≤ max asked first.expireTime := TcpTimer.add_remaining_le asked first.expireTime
      _ ≤ max asked (client.acceptedAt + Time.milliseconds keepAliveTimeoutMs) := by
        apply max_le_max_left
        exact htime ▸ hfirst.least fd node hnode

end EventLoop

/-! ## Rounds -/

namespace TestedLoop

/-- A connection that is open when the loop tests its condition has time. -/
structure OnTime (tested : TestedLoop) : Prop where
  going : tested.loop.Going
  within : tested.loop.Within tested.testedAt (Time.milliseconds keepAliveTimeoutMs)

variable {tested : TestedLoop} {delay busy : Time} {round : Round} {fd : ℕ} {client : Client}

/-- The end of a round is not far behind the deadline of any connection. -/
theorem OnTime.finishedAt_le (h : tested.OnTime) (hprompt : tested.Prompt delay busy round)
    (hdelay : 0 ≤ delay) (hbusy : 0 ≤ busy) (hclient : tested.loop.clients.lookup fd = some client) :
    round.finishedAt ≤
      client.acceptedAt + Time.milliseconds keepAliveTimeoutMs + (2 * delay + busy) := by
  obtain ⟨hwaits, hsleep⟩ := h.within.sleep_le h.going hprompt.asked.1 hclient
  have hyoung := h.within.young fd client hclient
  have hasked := hprompt.asked.2
  have hlate : max round.askedAt (client.acceptedAt + Time.milliseconds keepAliveTimeoutMs) ≤
      client.acceptedAt + Time.milliseconds keepAliveTimeoutMs + delay := by
    apply max_le
    · linarith
    · linarith
  have hwoken : round.wokenAt ≤
      client.acceptedAt + Time.milliseconds keepAliveTimeoutMs + 2 * delay := by
    have hkernel := hprompt.woken (Int.ne_of_gt (Int.lt_of_lt_of_le (by decide) hwaits))
    unfold timeoutMs at hkernel
    linarith
  unfold Round.finishedAt
  cases houtcome : round.outcome with
  | failed =>
    dsimp only
    linarith
  | handled batch checkedAt =>
    have hlasted := (hprompt.handled batch checkedAt houtcome).2.1
    dsimp only
    linarith

/-- If the wait is interrupted, no deadline has passed. -/
theorem OnTime.wokenAt_le (h : tested.OnTime) (hprompt : tested.Prompt delay busy round)
    (hfailed : round.outcome = .failed) (hclient : tested.loop.clients.lookup fd = some client) :
    round.wokenAt ≤ client.acceptedAt + Time.milliseconds keepAliveTimeoutMs := by
  obtain ⟨hwaits, hsleep⟩ := h.within.sleep_le h.going hprompt.asked.1 hclient
  obtain ⟨hsleeps, hbefore⟩ := hprompt.interrupted hfailed
  have hwoken := hbefore (Int.ne_of_gt (Int.lt_of_lt_of_le (by decide) hwaits))
  unfold timeoutMs at hsleeps hwoken
  rcases le_total round.askedAt (client.acceptedAt + Time.milliseconds keepAliveTimeoutMs) with
    htime | hover
  · rw [max_eq_right htime] at hsleep
    exact Int.le_trans hwoken hsleep
  · -- a deadline that is over leaves no time to sleep
    rw [max_eq_left hover] at hsleep
    have hnone : Time.milliseconds (tested.loop.timer.getNextTimeout round.askedAt).toInt ≤ 0 := by
      linarith
    unfold Time.milliseconds at hnone
    omega

theorem OnTime.next (h : tested.OnTime) (hprompt : tested.Prompt delay busy round)
    (hdelay : 0 ≤ delay) (hbusy : 0 ≤ busy) : (tested.round round).OnTime := by
  have hfinished {fd : ℕ} {client : Client} (hclient : tested.loop.clients.lookup fd = some client) :=
    h.finishedAt_le hprompt hdelay hbusy hclient
  have hinputs : (tested.round round).loop = run EventLoop.step tested.loop round.inputs := rfl
  have htested : (tested.round round).testedAt = round.finishedAt := rfl
  cases houtcome : round.outcome with
  | failed =>
    have hfail : round.finishedAt = round.wokenAt ∧ round.inputs = [] := by
      unfold Round.finishedAt Round.inputs
      rw [houtcome]
      exact ⟨rfl, rfl⟩
    rw [hfail.2, run_nil] at hinputs
    apply OnTime.mk
    · rw [hinputs]
      exact h.going
    · rw [hinputs, htested, hfail.1]
      apply EventLoop.Within.mk
      · exact fun fd client hclient ↦ h.wokenAt_le hprompt houtcome hclient
      · intro node hmem
        have hlater : tested.testedAt ≤ round.wokenAt :=
          Int.le_trans hprompt.asked.1 hprompt.waited
        exact Int.le_trans (h.within.nodes node hmem) (Int.add_le_add_right hlater _)
  | handled batch checkedAt =>
    obtain ⟨hwoken, hlasted, htimes⟩ := hprompt.handled batch checkedAt houtcome
    have hend : round.finishedAt = checkedAt ∧
        round.inputs = batch.map ReadyEntry.input ++ [.check checkedAt] := by
      unfold Round.finishedAt Round.inputs
      rw [houtcome]
      exact ⟨rfl, rfl⟩
    have hopen : tested.loop.Within checkedAt
        (Time.milliseconds keepAliveTimeoutMs + (2 * delay + busy)) := by
      apply EventLoop.Within.mk
      · intro fd client hclient
        rw [← add_assoc, ← hend.1]
        exact hfinished hclient
      · intro node hmem
        have hlater : tested.testedAt ≤ checkedAt :=
          Int.le_trans (Int.le_trans hprompt.asked.1 hprompt.waited) hwoken
        exact Int.le_trans (h.within.nodes node hmem) (Int.add_le_add_right hlater _)
    have hfresh (entry : ReadyEntry) (hentry : entry ∈ batch) (time : Time) (htime : time ∈ entry.times) :
        checkedAt ≤ time + (Time.milliseconds keepAliveTimeoutMs + (2 * delay + busy)) ∧
          time ≤ checkedAt := by
      obtain ⟨hafter, hbefore⟩ := htimes entry hentry time htime
      have hspan : 0 ≤ Time.milliseconds keepAliveTimeoutMs := by decide
      exact ⟨by linarith, hbefore⟩
    obtain ⟨hwithin, hgoing⟩ := hopen.batch h.going hfresh
    have hstep (loop : EventLoop) (hgoing : loop.Going) :
        loop.step (.check checkedAt) = loop.checkExpired checkedAt := by
      simp [EventLoop.step, hgoing.exited]
    rw [hend.2, run_append, run_cons, run_nil] at hinputs
    apply OnTime.mk
    · rw [hinputs]
      exact hgoing.check checkedAt
    · rw [hinputs, htested, hend.1, hstep _ hgoing]
      exact hwithin.checkExpired (hgoing.consistent hgoing.exited)

/-- A loop that begins. -/
def start (id : ℕ) (services : Services) (now : Time) : TestedLoop := ⟨.new id services, now⟩

theorem onTime_start (id : ℕ) (services : Services) (now : Time) : (start id services now).OnTime where
  going := EventLoop.going_new id services
  within :=
    { young := fun fd client hclient ↦ absurd hclient (by simp [start, EventLoop.new])
      nodes := fun node hmem ↦ absurd hmem List.not_mem_nil }

/-- In every run of prompt rounds, no connection is older than one timeout when the loop tests its
condition, and no round that begins with a connection ends later than two delays and the time of a batch
after its deadline. -/
theorem closed_in_time (id : ℕ) (services : Services) (now : Time) {delay busy : Time}
    (hdelay : 0 ≤ delay) (hbusy : 0 ≤ busy) {rounds : List Round}
    (hprompt : Always TestedLoop.round (Prompt delay busy) (start id services now) rounds) :
    (∀ fd client, (run TestedLoop.round (start id services now) rounds).loop.clients.lookup fd =
        some client → (run TestedLoop.round (start id services now) rounds).testedAt ≤
          client.acceptedAt + Time.milliseconds keepAliveTimeoutMs) ∧
      Always TestedLoop.round (fun tested round ↦ ∀ fd client,
        tested.loop.clients.lookup fd = some client → round.finishedAt ≤
          client.acceptedAt + Time.milliseconds keepAliveTimeoutMs + (2 * delay + busy))
        (start id services now) rounds := by
  have hnext (tested : TestedLoop) (round : Round) (h : tested.OnTime)
      (hround : tested.Prompt delay busy round) : (tested.round round).OnTime :=
    h.next hround hdelay hbusy
  have hstart := onTime_start id services now
  constructor
  · exact (run_invariant hnext hstart hprompt).within.young
  · exact always_of_kept OnTime hnext
      (fun tested round h hround fd client ↦ h.finishedAt_le hround hdelay hbusy) hstart hprompt

/-- A connection that sends nothing: a signal interrupts the wait after 5 s, and the check 60 µs behind
the deadline closes it. -/
def silentRounds : List Round :=
  [⟨0, 1000, .handled [.accept [.connected 1000 7 (lit "10.0.0.1"), .failed eagain]] 2000⟩,
    ⟨2000, 5000000000, .failed⟩,
    ⟨5000001000, 30000050000, .handled [] 30000061000⟩]

theorem prompt_silentRounds : Always TestedLoop.round (Prompt 100000 100000)
    (start 0 ⟨⟨∅⟩, .new, .static⟩ 0) silentRounds := by
  refine ⟨⟨rfl, by decide, by decide, by decide +kernel, nofun, ?_⟩,
    ⟨rfl, by decide, by decide, by decide +kernel, fun _ ↦ by decide +kernel, nofun⟩,
    ⟨rfl, by decide, by decide, by decide +kernel, nofun, ?_⟩, trivial⟩
  · rintro _ _ ⟨⟩
    decide
  · rintro _ _ ⟨⟩
    decide

theorem closed_in_time_silentRounds :
    (∀ fd client, (run TestedLoop.round (start 0 ⟨⟨∅⟩, .new, .static⟩ 0)
      silentRounds).loop.clients.lookup fd = some client →
        30000061000 ≤ client.acceptedAt + Time.milliseconds keepAliveTimeoutMs) ∧
      Always TestedLoop.round (fun tested round ↦ ∀ fd client,
        tested.loop.clients.lookup fd = some client → round.finishedAt ≤
          client.acceptedAt + Time.milliseconds keepAliveTimeoutMs + (2 * 100000 + 100000))
        (start 0 ⟨⟨∅⟩, .new, .static⟩ 0) silentRounds :=
  closed_in_time 0 ⟨⟨∅⟩, .new, .static⟩ 0 (by decide) (by decide) prompt_silentRounds

end TestedLoop

end WebServer
