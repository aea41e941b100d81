import WebServer.Connection.Linearization
import WebServer.Loop.ThreadEvents

/-!
# The threads act as one application

What the threads do is what moves of their connections do. So the process with its threads, tables,
timers and descriptors acts as the one application that the moves of connections act as.
-/

namespace WebServer

open Bytes Execution

variable {ι : Type*}

/-! ## The process -/

theorem EventLoop.Steady.meets {loop : EventLoop} (h : loop.Steady) (now : Time) (services : Services) :
    EventLoop.Steady { loop with now := now, services := services } where
  sound := h.sound
  consistent hexited :=
    (h.consistent hexited).append [] (by simp) rfl rfl rfl (List.append_nil _).symm

theorem Handling.Continues.closesLast {loop : EventLoop} {handling : Handling}
    (h : handling.Continues loop) (hposition : handling.position ≠ .processing)
    (hconsistent : loop.Consistent []) : ∃ met left,
      Session.ClosesLast ⟨handling.client.server, met, []⟩ (handling.finish.seen [] left) := by
  obtain ⟨left, all, hall⟩ := h.handlers
  obtain ⟨-, hopen⟩ := hconsistent.server handling.report.fd handling.client h.client
  refine ⟨loop.services, left, ?_⟩
  rw [← rest_seen hposition noEnvs left, ← hall noEnvs]
  exact EventLoop.handlers_closesLast _ hopen

namespace ThreadMove

/-- The clock does not go back between turns. -/
def Meets (now : Time) : ThreadMove ι → Prop
  | .turn _ env => now ≤ env.now ∧ env.now ≤ env.cleanupNow
  | _ => True

instance (now : Time) : ∀ move : ThreadMove ι, Decidable (move.Meets now)
  | .turn _ _ => inferInstanceAs (Decidable (_ ∧ _))
  | .command .. | .report .. | .finish .. => inferInstanceAs (Decidable True)

def clockAfter (now : Time) : ThreadMove ι → Time
  | .turn _ env => env.cleanupNow
  | _ => now

/-- Moves of connections in place of a move of a thread: a turn for a turn, and none otherwise. -/
def MirroredBy (move : ThreadMove ι) (moves : List (Move (ConnectionId ι))) : Prop :=
  (∀ move ∈ moves, ∃ thread, move.Outside thread) ∨
    ∃ thread env id, move = .turn thread env ∧ moves = [.turn id env]

end ThreadMove

/-! ## The journal of a run -/

/-- The verdict that the next turn of an event answers, and the answer. -/
def Handling.answered (handling : Handling) (thread : ι) (services : Services) (env : TurnEnv) :
    List (ConnectionId ι × (Arrival × Message)) :=
  let id := handling.client.id thread handling.report.fd
  let server := handling.session.server
  match HttpRequest.parse server.inBuffer with
  | .needMore => []
  | .error code =>
    [(id, (⟨.error code, server.clientIp, env.now, env.openFile⟩,
      responseMessage (Session.parseErrorResponse code)))]
  | .ok request _ =>
    [(id, (⟨.ok request, server.clientIp, env.now, env.openFile⟩,
      Session.message env.toEnv request.keepAlive server.clientIp services request))]

/-- An entry has the address of its connection, and the clock and the files of its turn. -/
theorem Handling.answered_of_turn {handling : Handling} {thread : ι} {services : Services} {env : TurnEnv}
    {entry : ConnectionId ι × (Arrival × Message)}
    (hmem : entry ∈ handling.answered thread services env) :
    entry.1.thread = thread ∧ entry.2.1.now = env.now ∧ entry.2.1.openFile = env.openFile := by
  unfold Handling.answered at hmem
  dsimp only at hmem
  cases hparse : HttpRequest.parse handling.session.server.inBuffer with
  | needMore => simp [hparse] at hmem
  | error code =>
    simp only [hparse, List.mem_singleton] at hmem
    subst hmem
    exact ⟨rfl, rfl, rfl⟩
  | ok request consumed =>
    simp only [hparse, List.mem_singleton] at hmem
    subst hmem
    exact ⟨rfl, rfl, rfl⟩

namespace Threads

variable [DecidableEq ι]

/-- Only a turn of `processRequests` answers. -/
def entriesOf (threads : Threads ι) : ThreadMove ι → List (ConnectionId ι × (Arrival × Message))
  | .turn thread env =>
    match (threads.worker thread).handling with
    | some handling =>
      if handling.position = .processing then handling.answered thread threads.services env else []
    | none => []
  | _ => []

def journal : Threads ι → List (ThreadMove ι) → List (ConnectionId ι × (Arrival × Message))
  | _, [] => []
  | threads, move :: moves => threads.entriesOf move ++ journal (threads.step move) moves

theorem journal_append (threads : Threads ι) (first second : List (ThreadMove ι)) :
    journal threads (first ++ second) =
      journal threads first ++ journal (Execution.run step threads first) second := by
  induction first generalizing threads with
  | nil => rfl
  | cons move first ih =>
    rw [List.cons_append, journal, journal, ih, List.append_assoc]
    rfl

/-- Every entry is made by a turn of its thread, with the clock and the files of the turn. -/
theorem journal_of_turns (threads : Threads ι) (moves : List (ThreadMove ι)) :
    ∀ entry ∈ journal threads moves, ∃ env, .turn entry.1.thread env ∈ moves ∧
      entry.2.1.now = env.now ∧ entry.2.1.openFile = env.openFile := by
  induction moves generalizing threads with
  | nil => simp [journal]
  | cons move moves ih =>
    intro entry hmem
    rw [journal, List.mem_append] at hmem
    obtain hmem | hmem := hmem
    · cases move with
      | command | report | finish => simp [entriesOf] at hmem
      | turn thread env =>
        unfold entriesOf at hmem
        dsimp only at hmem
        split at hmem
        · split at hmem
          · obtain ⟨hthread, hnow, hopenFile⟩ := Handling.answered_of_turn hmem
            exact ⟨env, hthread ▸ List.mem_cons_self, hnow, hopenFile⟩
          · exact absurd hmem List.not_mem_nil
        · exact absurd hmem List.not_mem_nil
    · obtain ⟨env, hturn, hentry⟩ := ih (threads.step move) entry hmem
      exact ⟨env, List.mem_cons_of_mem move hturn, hentry⟩

end Threads

/-- Moves that are no turns answer nothing. -/
theorem Cluster.journal_outside [DecidableEq ι] (cluster : Cluster (ConnectionId ι))
    {moves : List (Move (ConnectionId ι))}
    (hmoves : ∀ move ∈ moves, ∃ thread, move.Outside thread) : cluster.journal moves = [] := by
  induction moves generalizing cluster with
  | nil => rfl
  | cons move moves ih =>
    obtain ⟨⟨thread, hmove⟩, hmoves⟩ := List.forall_mem_cons.mp hmoves
    rw [Cluster.journal, ih (cluster.step move) hmoves, List.append_nil]
    cases move with
    | turn id env => exact False.elim hmove
    | receive | flush | write | close => rfl

/-- A turn of the connection answers what the event that is being handled does. -/
theorem Worker.Shown.answered [DecidableEq ι] {cluster : Cluster (ConnectionId ι)} {thread : ι}
    {loop : EventLoop} {handling : Handling}
    (h : (Worker.mk loop (some handling)).Shown cluster thread)
    (hposition : handling.position = .processing) (env : TurnEnv) :
    cluster.journal [.turn (handling.client.id thread handling.report.fd) env] =
      handling.answered thread cluster.services env := by
  obtain ⟨-, hconnection, -⟩ := h
  rw [hposition] at hconnection
  have hphase : (cluster.connection (handling.client.id thread handling.report.fd)).phase =
      .processing := by
    rw [hconnection]
    rfl
  rw [Cluster.journal, Cluster.journal, List.append_nil, Cluster.entriesOf, if_pos hphase]
  have hserver : (cluster.connection (handling.client.id thread handling.report.fd)).server =
      handling.session.server := by
    rw [hconnection]
  unfold Cluster.answered Handling.answered
  dsimp only
  cases hparse : HttpRequest.parse handling.session.server.inBuffer with
  | needMore => simp only [hserver, hparse]
  | error code => simp only [hserver, hparse]
  | ok request consumed => simp only [hserver, hparse]

namespace Threads

variable [DecidableEq ι] {services : Services} {ids : ι → ℕ} {threads : Threads ι}
  {cluster : Cluster (ConnectionId ι)}

/-- The moves of the connections have led to where the process is. -/
structure Serves (threads : Threads ι) (cluster : Cluster (ConnectionId ι)) : Prop where
  services : cluster.services = threads.services
  shown : ∀ thread, (threads.worker thread).Shown cluster thread

omit [DecidableEq ι] in
theorem serves_new (services : Services) (ids : ι → ℕ) :
    (new services ids).Serves (.new services ConnectionId.fd ConnectionId.clientIp) where
  services := rfl
  shown thread := .new services thread none (ids thread) services

/-- A thread has moved, and the connections of the other threads are where they were. -/
theorem Serves.put (h : threads.Serves cluster) {cluster' : Cluster (ConnectionId ι)} {thread : ι}
    {worker : Worker} (hworker : worker.Shown cluster' thread)
    (hother : ∀ other : ConnectionId ι, other.thread ≠ thread →
      cluster'.connection other = cluster.connection other) (other : ι) :
    ((threads.put thread worker).worker other).Shown cluster' other := by
  by_cases heq : other = thread
  · subst heq
    rw [worker_put_self]
    exact hworker
  · rw [worker_put_of_ne heq]
    apply (h.shown other).of_same
    intro id hid
    apply hother
    rw [hid]
    exact heq

theorem Serves.outside (h : threads.Serves cluster) {thread : ι} {worker : Worker}
    (hworker : ∃ moves : List (Move (ConnectionId ι)), (∀ move ∈ moves, move.Outside thread) ∧
      worker.Shown (run Cluster.step cluster moves) thread) :
    ∃ moves : List (Move (ConnectionId ι)), (∀ move ∈ moves, move.Outside thread) ∧
      (threads.put thread worker).Serves (run Cluster.step cluster moves) := by
  obtain ⟨moves, hmoves, hshown⟩ := hworker
  have houtside := Cluster.outside_run cluster hmoves
  exact ⟨moves, hmoves, houtside.1.trans h.services, h.put hshown houtside.2⟩

omit [DecidableEq ι] in
/-- What is known of the worker of a thread. -/
theorem FollowsRuns.sound (h : FollowsRuns services ids threads) (thread : ι) :
    (threads.worker thread).loop.Steady ∧ (threads.worker thread).loop.Projects services ∧
      ∀ handling, (threads.worker thread).handling = some handling →
        (threads.worker thread).loop.Consistent [] ∧
        (threads.worker thread).loop.clients.lookup handling.report.fd = some handling.client ∧
        (handling.position ≠ .processing → ∃ met left,
          Session.ClosesLast ⟨handling.client.server, met, []⟩ (handling.finish.seen [] left)) := by
  obtain ⟨inputs, hfollows⟩ := h thread
  have hsteady : (run EventLoop.step (EventLoop.new (ids thread) services) inputs).Steady :=
    run_invariant_of_forall (fun _ input hsteady ↦ hsteady.step input)
      (EventLoop.steady_new (ids thread) services) inputs
  have hprojects := EventLoop.projects_run (ids thread) services inputs
  generalize run EventLoop.step (EventLoop.new (ids thread) services) inputs = loop
    at hfollows hsteady hprojects
  unfold Worker.Follows at hfollows
  cases hhandling : (threads.worker thread).handling with
  | none =>
    rw [hhandling] at hfollows
    dsimp only at hfollows
    rw [hfollows]
    refine ⟨hsteady.meets loop.now services, ?_, by simp⟩
    exact hprojects.append [] (fun _ ↦ rfl) rfl rfl rfl rfl (List.append_nil _).symm
  | some handling =>
    rw [hhandling] at hfollows
    obtain ⟨hloop, hcontinues⟩ := hfollows
    have hmet := hsteady.meets handling.report.now services
    rw [hloop]
    refine ⟨hmet, ?_, ?_⟩
    · exact hprojects.append [] (fun _ ↦ rfl) rfl rfl rfl rfl (List.append_nil _).symm
    · intro other heq
      obtain rfl := Option.some.inj heq
      exact ⟨hmet.consistent hcontinues.exited, hcontinues.client, fun hposition ↦
        hcontinues.closesLast hposition (hsteady.consistent hcontinues.exited)⟩

omit [DecidableEq ι] in
/-- The moves have led to the event that is being handled. -/
theorem Serves.shown_handling (h : threads.Serves cluster) {thread : ι} {handling : Handling}
    (hhandling : (threads.worker thread).handling = some handling) :
    (Worker.mk (threads.worker thread).loop (some handling)).Shown cluster thread := by
  have hworker : threads.worker thread = ⟨(threads.worker thread).loop, some handling⟩ := by
    rw [← hhandling]
  exact hworker ▸ h.shown thread

/-- Moves of the connections in place of a move of a thread: they lead to where it leads and answer what
it answers. -/
structure Mirrors (threads : Threads ι) (cluster : Cluster (ConnectionId ι)) (move : ThreadMove ι)
    (moves : List (Move (ConnectionId ι))) : Prop where
  serves : (threads.step move).Serves (Execution.run Cluster.step cluster moves)
  journal : threads.entriesOf move = cluster.journal moves
  mirrored : move.MirroredBy moves

/-- A move that is not at its place. -/
theorem Serves.stays (h : threads.Serves cluster) {move : ThreadMove ι}
    (hstep : threads.step move = threads) (hquiet : threads.entriesOf move = []) :
    ∃ moves, threads.Mirrors cluster move moves := by
  refine ⟨[], ?_, hquiet, .inl (by simp)⟩
  rw [hstep]
  exact h

/-- A move that answers nothing. -/
theorem Serves.silent (h : threads.Serves cluster) {move : ThreadMove ι} {thread : ι} {worker : Worker}
    (hstep : threads.step move = threads.put thread worker) (hquiet : threads.entriesOf move = [])
    (hworker : ∃ moves : List (Move (ConnectionId ι)), (∀ move ∈ moves, move.Outside thread) ∧
      worker.Shown (Execution.run Cluster.step cluster moves) thread) :
    ∃ moves, threads.Mirrors cluster move moves := by
  obtain ⟨moves, hmoves, hserves⟩ := h.outside hworker
  have houtside : ∀ move ∈ moves, ∃ thread, move.Outside thread :=
    fun move hmem ↦ ⟨thread, hmoves move hmem⟩
  refine ⟨moves, ?_, ?_, .inl houtside⟩
  · rw [hstep]
    exact hserves
  · rw [hquiet, cluster.journal_outside houtside]

theorem Serves.command (h : threads.Serves cluster) (hfollows : FollowsRuns services ids threads)
    (thread : ι) (command : Command) :
    ∃ moves, threads.Mirrors cluster (.command thread command) moves := by
  obtain ⟨hsteady, hprojects, -⟩ := hfollows.sound thread
  have hshown := h.shown thread
  cases hhandling : (threads.worker thread).handling with
  | some handling => exact h.stays (by simp only [Threads.step, hhandling]) rfl
  | none =>
    unfold Worker.Shown at hshown
    rw [hhandling] at hshown
    have hcommand : ∃ moves : List (Move (ConnectionId ι)), (∀ move ∈ moves, move.Outside thread) ∧
        (Worker.mk ((threads.worker thread).loop.step command.input) none).Shown
          (Execution.run Cluster.step cluster moves) thread :=
      Worker.Shown.command hshown hsteady hprojects command
    apply h.silent _ rfl hcommand
    simp only [Threads.step, hhandling]

theorem Serves.report (h : threads.Serves cluster) (hfollows : FollowsRuns services ids threads)
    (thread : ι) (report : Report) :
    ∃ moves, threads.Mirrors cluster (.report thread report) moves := by
  obtain ⟨hsteady, hprojects, -⟩ := hfollows.sound thread
  have hshown := h.shown thread
  by_cases hready : (threads.worker thread).handling.isNone ∧ (threads.worker thread).loop.running ∧
      ¬ (threads.worker thread).loop.exited
  · obtain ⟨hnone, -, hexited⟩ := id hready
    unfold Worker.Shown at hshown
    rw [Option.isNone_iff_eq_none.mp hnone] at hshown
    apply h.silent _ rfl (Worker.Shown.report hshown (hsteady.consistent (by simpa using hexited))
      hprojects report threads.services)
    exact if_pos hready
  · exact h.stays (if_neg hready) rfl

theorem Serves.turn (h : threads.Serves cluster) (hfollows : FollowsRuns services ids threads)
    (thread : ι) (env : TurnEnv) : ∃ moves, threads.Mirrors cluster (.turn thread env) moves := by
  obtain ⟨-, hprojects, hsound⟩ := hfollows.sound thread
  cases hhandling : (threads.worker thread).handling with
  | none => exact h.stays (by simp only [Threads.step, hhandling]) (by simp only [entriesOf, hhandling])
  | some handling =>
    obtain ⟨-, hclient, -⟩ := hsound handling hhandling
    have hshown := h.shown_handling hhandling
    by_cases hposition : handling.position = .processing
    · obtain ⟨hturn, hservices⟩ := hshown.turn hposition hprojects hclient env
      rw [h.services] at hturn hservices
      refine ⟨[.turn (handling.client.id thread handling.report.fd) env], ?_, ?_,
        .inr ⟨thread, env, _, rfl, rfl⟩⟩
      · simp only [Threads.step, hhandling, if_pos hposition]
        exact ⟨hservices, h.put hturn fun other hother ↦
          Cluster.connection_turn_of_ne env fun heq ↦ hother (heq ▸ rfl)⟩
      · rw [hshown.answered hposition env, h.services]
        simp only [entriesOf, hhandling, if_pos hposition]
    · apply h.stays
      · simp only [Threads.step, hhandling, if_neg hposition]
      · simp only [entriesOf, hhandling, if_neg hposition]

theorem Serves.finish (h : threads.Serves cluster) (hfollows : FollowsRuns services ids threads)
    (thread : ι) : ∃ moves, threads.Mirrors cluster (.finish thread) moves := by
  obtain ⟨-, hprojects, hsound⟩ := hfollows.sound thread
  cases hhandling : (threads.worker thread).handling with
  | none => exact h.stays (by simp only [Threads.step, hhandling]) rfl
  | some handling =>
    obtain ⟨hconsistent, hclient, hlast⟩ := hsound handling hhandling
    have hshown := h.shown_handling hhandling
    by_cases hposition : handling.position = .processing
    · exact h.stays (by simp only [Threads.step, hhandling, if_pos hposition]) rfl
    · obtain ⟨met, left, hlast⟩ := hlast hposition
      apply h.silent _ rfl (hshown.complete hposition hconsistent hprojects hclient hlast)
      simp only [Threads.step, hhandling, if_neg hposition]
      rfl

/-- Every move of a thread is what some moves of its connections do. -/
theorem Serves.step (h : threads.Serves cluster) (hfollows : FollowsRuns services ids threads)
    (move : ThreadMove ι) : ∃ moves, threads.Mirrors cluster move moves := by
  cases move with
  | command thread command => exact h.command hfollows thread command
  | report thread report => exact h.report hfollows thread report
  | turn thread env => exact h.turn hfollows thread env
  | finish thread => exact h.finish hfollows thread

end Threads

/-! ## Runs -/

namespace Move

/-- Only turns move the clock. -/
theorem always_outside (now : Time) {moves : List (Move (ConnectionId ι))}
    (hmoves : ∀ move ∈ moves, ∃ thread, move.Outside thread) :
    Always (fun now move ↦ move.clockAfter now) (fun now move ↦ move.Meets now) now moves ∧
      run (fun now move ↦ move.clockAfter now) now moves = now := by
  induction moves with
  | nil => exact ⟨trivial, rfl⟩
  | cons move moves ih =>
    obtain ⟨⟨thread, hmove⟩, hmoves⟩ := List.forall_mem_cons.mp hmoves
    have hquiet : move.Meets now ∧ move.clockAfter now = now := by
      cases move with
      | turn id env => exact False.elim hmove
      | receive | flush | write | close => exact ⟨trivial, rfl⟩
    rw [Always, run_cons, hquiet.2]
    exact ⟨⟨hquiet.1, (ih hmoves).1⟩, (ih hmoves).2⟩

end Move

namespace Threads

variable [DecidableEq ι] {services : Services} {ids : ι → ℕ} {threads : Threads ι}
  {cluster : Cluster (ConnectionId ι)}

/-- What the threads do in a run is what some moves of the connections do, at the same times. -/
theorem Serves.run (h : threads.Serves cluster) (hfollows : FollowsRuns services ids threads)
    {moves : List (ThreadMove ι)} {now now' : Time} (hle : now' ≤ now)
    (hmoves : Always (fun now move ↦ move.clockAfter now) (fun now move ↦ move.Meets now) now moves) :
    ∃ moves' : List (Move (ConnectionId ι)),
      (Execution.run Threads.step threads moves).Serves (Execution.run Cluster.step cluster moves') ∧
      threads.journal moves = cluster.journal moves' ∧
      Always (fun now move ↦ move.clockAfter now) (fun now move ↦ move.Meets now) now' moves' ∧
      Execution.run (fun now move ↦ move.clockAfter now) now' moves' ≤
        Execution.run (fun now move ↦ move.clockAfter now) now moves := by
  induction moves generalizing threads cluster now now' with
  | nil => exact ⟨[], h, rfl, trivial, hle⟩
  | cons move moves ih =>
    obtain ⟨hmove, hmoves⟩ := hmoves
    obtain ⟨first, hserves, hentries, hfirst⟩ := h.step hfollows move
    -- the clocks behind the first moves
    have hclock :
        Always (fun now move ↦ move.clockAfter now) (fun now move ↦ move.Meets now) now' first ∧
        Execution.run (fun now move ↦ move.clockAfter now) now' first ≤ move.clockAfter now := by
      obtain houtside | ⟨thread, env, id, rfl, rfl⟩ := hfirst
      · obtain ⟨halways, hrun⟩ := Move.always_outside now' houtside
        refine ⟨halways, ?_⟩
        rw [hrun]
        cases move with
        | turn thread env => exact hle.trans (hmove.1.trans hmove.2)
        | command | report | finish => exact hle
      · exact ⟨⟨⟨hle.trans hmove.1, hmove.2⟩, trivial⟩, le_rfl⟩
    obtain ⟨later, hserves', hjournal, halways, hrun⟩ := ih hserves (hfollows.step move) hclock.2 hmoves
    refine ⟨first ++ later, ?_, ?_, ?_, ?_⟩
    · rw [run_cons, run_append]
      exact hserves'
    · rw [journal, Cluster.journal_append, hentries, hjournal]
    · exact always_append.mpr ⟨hclock.1, halways⟩
    · rw [run_append, run_cons]
      exact hrun

/-- The process acts as one application: what its connections were answered is an execution of the
application, and each of them has had its part of the answers in order, for the address it was accepted
with. -/
structure ActsAsApplication (root : Bytes) (start : Application) (threads : Threads ι)
    (journal : List (ConnectionId ι × (Arrival × Message))) : Prop where
  executes : ∃ last now, (Application.object root).Executes start (journal.map Prod.snd) last ∧
    last.Represents root threads.services now
  entries : ∀ entry ∈ journal, AcceptedAt (threads.worker entry.1.thread).loop.trace entry.1.fd
    entry.1.conn entry.1.clientIp ∧ entry.2.1.clientIp = entry.1.clientIp
  answers : ∀ thread fd conn clientIp, AcceptedAt (threads.worker thread).loop.trace fd conn clientIp →
    let id : ConnectionId ι := ⟨thread, conn, fd, clientIp⟩
    let calls := (threads.worker thread).calls conn
    (∀ entry ∈ journal, entry.1.thread = thread → entry.1.conn = conn → entry.1 = id) ∧
      verdicts calls = (partOf id journal).map (fun entry ↦ entry.1.cause) ∧
      EncodesAll ((partOf id journal).map Prod.snd) (queued calls) ∧
      (responseFramer.drain (accepted calls)).messages <+: (partOf id journal).map Prod.snd

theorem Serves.actsAsApplication (h : threads.Serves cluster)
    (hfollows : FollowsRuns services ids threads) {root : Bytes} {start : Application}
    {journal : List (ConnectionId ι × (Arrival × Message))}
    (hacts : cluster.ActsAsApplication root start ConnectionId.clientIp journal) :
    threads.ActsAsApplication root start journal := by
  have htrace {thread : ι} {fd conn : ℕ} {clientIp : Bytes}
      (haccepted : AcceptedAt (threads.worker thread).loop.trace fd conn clientIp) :=
    (h.shown thread).trace_eq (hfollows.sound thread).2.1
      (fun handling hhandling ↦ ((hfollows.sound thread).2.2 handling hhandling).2.1) haccepted
  -- who has an entry has made a call
  have hused {entry : ConnectionId ι × (Arrival × Message)} (hmem : entry ∈ journal) :
      cluster.connection entry.1 ≠ entry.1.initial := by
    intro hinitial
    have hverdicts := hacts.verdicts entry.1
    rw [hinitial] at hverdicts
    have hpart : partOf entry.1 journal = [] := List.map_eq_nil_iff.mp hverdicts.symm
    have hentry : entry.2 ∈ partOf entry.1 journal :=
      List.mem_map.mpr ⟨entry, List.mem_filter.mpr ⟨hmem, by simp⟩, rfl⟩
    rw [hpart] at hentry
    exact List.not_mem_nil hentry
  refine ⟨?_, ?_, ?_⟩
  · rw [← h.services]
    exact hacts.executes
  · intro entry hmem
    refine ⟨?_, hacts.addresses entry hmem⟩
    by_contra hnot
    apply hused hmem
    by_cases hex : ∃ fd clientIp,
        AcceptedAt (threads.worker entry.1.thread).loop.trace fd entry.1.conn clientIp
    · obtain ⟨fd, clientIp, haccepted⟩ := hex
      apply (htrace haccepted).2 entry.1 rfl rfl
      intro hid
      apply hnot
      rw [hid]
      exact haccepted
    · apply (h.shown entry.1.thread).fresh entry.1 rfl
      intro fd clientIp haccepted
      exact hex ⟨fd, clientIp, haccepted⟩
  · intro thread fd conn clientIp haccepted
    obtain ⟨heq, hother⟩ := htrace haccepted
    dsimp only
    rw [← heq]
    refine ⟨?_, hacts.verdicts _, hacts.encodes _, hacts.decoded _⟩
    intro entry hmem hthread hconn
    by_contra hne
    exact hused hmem (hother entry.1 hthread hconn hne)

/-- Whatever clients do and however the threads interleave, with any accepts, timeouts, closes and reuse
of descriptors, at every moment the process acts as one application; every entry of the journal has the
clock and the files of the turn that made it, and the journal of a moment is the beginning of the journal
of a later one. -/
theorem threads_act_as_application {services : Services} (hlimiter : services.limiter = .new) (ids : ι → ℕ)
    {start : Time} {moves : List (ThreadMove ι)}
    (hmoves : Always (fun now move ↦ move.clockAfter now) (fun now move ↦ move.Meets now) start moves)
    {moment : List (ThreadMove ι)} (hmoment : moment <+: moves) :
    journal (new services ids) moment <+: journal (new services ids) moves ∧
      (∀ entry ∈ journal (new services ids) moment, ∃ env, .turn entry.1.thread env ∈ moment ∧
        entry.2.1.now = env.now ∧ entry.2.1.openFile = env.openFile) ∧
      ActsAsApplication services.staticRoot.path (Application.initial services start)
        (Execution.run step (new services ids) moment) (journal (new services ids) moment) := by
  obtain ⟨rest, rfl⟩ := hmoment
  obtain ⟨hfirst, -⟩ := always_append.mp hmoves
  obtain ⟨moves, hserves, hjournal, halways, -⟩ :=
    (serves_new services ids).run (followsRuns_run services ids []) le_rfl hfirst
  obtain ⟨-, hacts⟩ := Cluster.acts_as_application hlimiter (@ConnectionId.fd ι) ConnectionId.clientIp
    halways (List.prefix_refl moves)
  rw [journal_append]
  refine ⟨List.prefix_append .., journal_of_turns _ moment, ?_⟩
  rw [hjournal]
  exact hserves.actsAsApplication (followsRuns_run services ids moment) hacts

/-- One thread lists the store while the other stores a value. -/
def interleavedMoves : List (ThreadMove Bool) :=
  [.command false (.accept [.connected 0 5 (lit "10.0.0.1")]),
    .command true (.accept [.connected 0 6 (lit "10.0.0.2")]),
    .report false ⟨1, 5, EventLoop.acceptEvents, [.received (lit "GET /kv HTTP/1.1\r\n\r\n")],
      fun _ ↦ ⟨1000, 0⟩, fun _ ↦ ⟨1000, 0⟩⟩,
    .report true ⟨1, 6, EventLoop.acceptEvents,
      [.received (lit "PUT /kv/a HTTP/1.1\r\nContent-Length: 1\r\n\r\n1")], fun _ ↦ ⟨1000, 0⟩,
      fun _ ↦ ⟨1000, 0⟩⟩,
    .turn true ⟨2, 2, fun _ ↦ none⟩, .turn false ⟨3, 3, fun _ ↦ none⟩, .turn false ⟨4, 4, fun _ ↦ none⟩,
    .finish false, .turn true ⟨5, 5, fun _ ↦ none⟩, .finish true]

theorem threads_act_as_application_interleavedMoves :
    (responseFramer.drain (accepted (((Execution.run step (new ⟨⟨∅⟩, .new, .static⟩ fun _ ↦ 0)
        interleavedMoves).worker false).calls 0))).messages = [⟨200, lit "a=1\n"⟩] ∧
      (journal (new ⟨⟨∅⟩, .new, .static⟩ fun _ ↦ 0) (interleavedMoves.take 7)).map
        (fun entry ↦ (entry.1.thread, entry.2.1.clientIp, entry.2.1.now)) =
          [(true, lit "10.0.0.2", 2), (false, lit "10.0.0.1", 3)] ∧
      journal (new ⟨⟨∅⟩, .new, .static⟩ fun _ ↦ 0) (interleavedMoves.take 7) <+:
        journal (new ⟨⟨∅⟩, .new, .static⟩ fun _ ↦ 0) interleavedMoves ∧
      (∀ entry ∈ journal (new ⟨⟨∅⟩, .new, .static⟩ fun _ ↦ 0) (interleavedMoves.take 7),
        ∃ env, .turn entry.1.thread env ∈ interleavedMoves.take 7 ∧
          entry.2.1.now = env.now ∧ entry.2.1.openFile = env.openFile) ∧
      ActsAsApplication (Services.mk ⟨∅⟩ .new .static).staticRoot.path
        (Application.initial ⟨⟨∅⟩, .new, .static⟩ 0)
        (Execution.run step (new ⟨⟨∅⟩, .new, .static⟩ fun _ ↦ 0) (interleavedMoves.take 7))
        (journal (new ⟨⟨∅⟩, .new, .static⟩ fun _ ↦ 0) (interleavedMoves.take 7)) :=
  ⟨by decide +kernel, by decide +kernel,
    @threads_act_as_application Bool _ ⟨⟨∅⟩, .new, .static⟩ rfl (fun _ ↦ 0) 0 interleavedMoves (by decide)
      (interleavedMoves.take 7) (List.take_prefix 7 interleavedMoves)⟩

end Threads

end WebServer
