import WebServer.Foundation.Execution
import WebServer.Foundation.Thinning
import WebServer.Service.AsyncLogger

/-!
# The order of the log

The file, the back buffer and the front buffer hold, in this order, the lines in the order in which they
were put into the front buffer. What is missing was the oldest line of a full front buffer. The reason
is that the back buffer is empty whenever the writer is not writing it.
-/

namespace WebServer

open Execution

namespace AsyncLogger

/-- The line was the oldest one of a front buffer that was found full. -/
def Overflowed (logger : AsyncLogger) (entry : LogEntry) : Prop :=
  ∃ push ∈ logger.pushes, push.found.head? = some entry ∧
    push.found.length = logger.maxQueueSize

/-- The lines that were put into the front buffer and are not lost, wherever they are. -/
def lines (logger : AsyncLogger) : List LogEntry :=
  logger.file ++ logger.backBuffer ++ logger.frontBuffer

/-- The lines are in order, only overflow is missing, and the front buffer is bounded. -/
structure Faithful (logger : AsyncLogger) : Prop where
  numbered : logger.pushes.map (fun push ↦ push.entry.number) = List.range logger.pushes.length
  kept : Thinning logger.Overflowed (logger.pushes.map LogPush.entry) logger.lines
  bounded : logger.frontBuffer.length ≤ logger.maxQueueSize

/-- The invariant of all runs. -/
structure Ordered (logger : AsyncLogger) : Prop extends Faithful logger where
  room : 1 ≤ logger.maxQueueSize
  exchanged : logger.writer ≠ .writing → logger.backBuffer = []
  opened : logger.stopper ≠ .returned → logger.fileOpen = true
  joined : logger.stopper = .draining ∨ logger.stopper = .returned → logger.writer = .done

variable {logger : AsyncLogger}

theorem ordered_init (level : LogLevel) {maxQueueSize : ℕ} (hroom : 1 ≤ maxQueueSize) :
    (init level maxQueueSize).Ordered where
  numbered := rfl
  kept := .nil
  bounded := Nat.zero_le _
  room := hroom
  exchanged _ := rfl
  opened _ := rfl
  joined h := absurd h (by simp [init])

/-- A step that leaves the lines and the buffers alone. -/
theorem Ordered.of_eq (h : logger.Ordered) {logger' : AsyncLogger}
    (hpushes : logger'.pushes = logger.pushes) (hmax : logger'.maxQueueSize = logger.maxQueueSize)
    (hlines : logger'.lines = logger.lines)
    (hfront : logger'.frontBuffer.length ≤ logger.frontBuffer.length)
    (hexchanged : logger'.writer ≠ .writing → logger'.backBuffer = [])
    (hopened : logger'.stopper ≠ .returned → logger'.fileOpen = true)
    (hjoined : logger'.stopper = .draining ∨ logger'.stopper = .returned → logger'.writer = .done) :
    logger'.Ordered := by
  have hoverflowed : logger'.Overflowed = logger.Overflowed := by
    funext entry
    rw [Overflowed, Overflowed, hpushes, hmax]
  refine ⟨⟨?_, ?_, ?_⟩, ?_, hexchanged, hopened, hjoined⟩
  · rw [hpushes]
    exact h.numbered
  · rw [hoverflowed, hpushes, hlines]
    exact h.kept
  · rw [hmax]
    exact hfront.trans h.bounded
  · rw [hmax]
    exact h.room

/-! ## Calls of log -/

theorem Ordered.log (h : logger.Ordered) (call : LogCall) : (logger.log call).Ordered := by
  unfold AsyncLogger.log
  split
  · exact h
  · split
    · exact h
    · exact h.of_eq rfl rfl rfl le_rfl h.exchanged h.opened h.joined

/-- The line that a full front buffer loses is its oldest one. -/
theorem Ordered.pushFront (h : logger.Ordered) (text : Bytes) : (logger.pushFront text).Ordered := by
  have hmono (entry : LogEntry) (hold : logger.Overflowed entry) :
      (logger.pushFront text).Overflowed entry := by
    obtain ⟨push, hmem, hfound⟩ := hold
    exact ⟨push, List.mem_append_left _ hmem, hfound⟩
  have hkept := h.kept.mono hmono
  have hnumbered : (logger.pushFront text).pushes.map (fun push ↦ push.entry.number) =
      List.range (logger.pushFront text).pushes.length := by
    simp [AsyncLogger.pushFront, h.numbered, List.range_succ]
  have hpushed : (logger.pushFront text).pushes.map LogPush.entry =
      logger.pushes.map LogPush.entry ++ [⟨logger.pushes.length, text⟩] := by
    simp [AsyncLogger.pushFront]
  by_cases hfull : logger.maxQueueSize ≤ logger.frontBuffer.length
  · obtain ⟨oldest, rest, hfront⟩ : ∃ oldest rest, logger.frontBuffer = oldest :: rest :=
      List.exists_cons_of_length_pos (h.room.trans hfull)
    have hlength : logger.frontBuffer.length = logger.maxQueueSize := le_antisymm h.bounded hfull
    have hoverflow : (logger.pushFront text).Overflowed oldest :=
      ⟨⟨⟨logger.pushes.length, text⟩, logger.frontBuffer⟩, by simp [AsyncLogger.pushFront],
        by simp [hfront], hlength⟩
    have hbuffer : (logger.pushFront text).frontBuffer = rest ++ [⟨logger.pushes.length, text⟩] := by
      unfold AsyncLogger.pushFront
      rw [if_pos hfull, hfront]
      rfl
    refine ⟨⟨hnumbered, ?_, ?_⟩, h.room, h.exchanged, h.opened, h.joined⟩
    · rw [hpushed, lines, hbuffer, ← List.append_assoc]
      rw [lines, hfront] at hkept
      exact (hkept.erase hoverflow).concat _
    · rw [hbuffer, List.length_append, List.length_singleton, ← List.length_cons (a := oldest),
        ← hfront]
      exact h.bounded
  · have hbuffer : (logger.pushFront text).frontBuffer =
        logger.frontBuffer ++ [⟨logger.pushes.length, text⟩] := by
      simp [AsyncLogger.pushFront, hfull]
    refine ⟨⟨hnumbered, ?_, ?_⟩, h.room, h.exchanged, h.opened, h.joined⟩
    · rw [hpushed, lines, hbuffer, ← List.append_assoc]
      exact hkept.concat _
    · rw [hbuffer, List.length_append, List.length_singleton]
      exact Nat.lt_of_not_le hfull

theorem Ordered.push (h : logger.Ordered) (index : ℕ) : (logger.push index).Ordered := by
  unfold AsyncLogger.push
  split
  · exact h
  · split
    · rename_i text _
      have hpush := h.pushFront text
      exact hpush.of_eq rfl rfl rfl le_rfl hpush.exchanged hpush.opened hpush.joined
    · exact h

/-! ## The writer -/

theorem Ordered.writerStep (h : logger.Ordered) (timedOut : Bool) :
    (logger.writerStep timedOut).Ordered := by
  have hmove {position : WriterPosition} (hwriter : logger.writer ≠ .done)
      (hback : position ≠ .writing → logger.backBuffer = []) :
      Ordered { logger with writer := position } := by
    refine h.of_eq rfl rfl rfl le_rfl hback h.opened fun hstop ↦ ?_
    exact absurd (h.joined hstop) hwriter
  have hempty {position : WriterPosition} (hwriter : logger.writer = position)
      (hne : position ≠ .writing) : logger.backBuffer = [] :=
    h.exchanged (hwriter ▸ hne)
  unfold AsyncLogger.writerStep
  cases hwriter : logger.writer with
  | locking =>
    dsimp only
    split
    · exact h
    · exact hmove (by simp [hwriter]) fun _ ↦ hempty hwriter (by decide)
  | testing => exact hmove (by simp [hwriter]) fun _ ↦ hempty hwriter (by decide)
  | predicate => exact hmove (by simp [hwriter]) fun _ ↦ hempty hwriter (by decide)
  | sleeping =>
    dsimp only
    split
    · exact h
    · exact hmove (by simp [hwriter]) fun _ ↦ hempty hwriter (by decide)
  | awake => exact hmove (by simp [hwriter]) fun _ ↦ hempty hwriter (by decide)
  | swapping =>
    have hback := hempty hwriter (by decide)
    refine h.of_eq rfl rfl ?_ ?_ (fun hne ↦ absurd rfl hne) h.opened fun hstop ↦ ?_
    · simp [lines, hback]
    · simp [hback]
    · exact absurd (h.joined hstop) (by simp [hwriter])
  | writing =>
    have hstopper : ¬ (logger.stopper = .draining ∨ logger.stopper = .returned) := by
      intro hstop
      exact absurd (h.joined hstop) (by simp [hwriter])
    have hopen := h.opened fun hreturned ↦ hstopper (.inr hreturned)
    dsimp only
    split
    · rename_i entry rest hback
      rw [writeToFile, if_pos hopen]
      refine h.of_eq rfl rfl ?_ le_rfl (fun hne ↦ absurd hwriter hne) h.opened
        fun hstop ↦ absurd hstop hstopper
      simp [lines, hback]
    · rename_i hback
      exact hmove (by simp [hwriter]) fun _ ↦ hback
  | done => exact h

/-! ## The end -/

theorem Ordered.stopStep (h : logger.Ordered) : logger.stopStep.Ordered := by
  unfold AsyncLogger.stopStep
  cases hstopper : logger.stopper with
  | idle =>
    dsimp only
    split
    · exact h.of_eq rfl rfl rfl le_rfl h.exchanged (fun _ ↦ h.opened (by simp [hstopper]))
        fun hstop ↦ absurd hstop (by simp)
    · exact h
  | joining =>
    dsimp only
    split
    · rename_i hdone
      exact h.of_eq rfl rfl rfl le_rfl h.exchanged (fun _ ↦ h.opened (by simp [hstopper]))
        fun _ ↦ hdone
    · exact h
  | draining =>
    have hdone := h.joined (.inl hstopper)
    have hback := h.exchanged (by simp [hdone])
    have hopen := h.opened (by simp [hstopper])
    dsimp only
    split
    · rename_i entry rest hfront
      rw [writeToFile, if_pos hopen]
      refine h.of_eq rfl rfl ?_ ?_ h.exchanged h.opened h.joined
      · simp [lines, hback, hfront]
      · simp [hfront]
    · rename_i entry rest _ hrest
      exact absurd (hback.symm.trans hrest) (by simp)
    · exact h.of_eq rfl rfl rfl le_rfl h.exchanged (fun hne ↦ absurd rfl hne) fun _ ↦ hdone
  | returned => exact h

theorem Ordered.step (h : logger.Ordered) (input : LoggerInput) : (logger.step input).Ordered := by
  cases input with
  | log call => exact h.log call
  | push index => exact h.push index
  | writer timedOut => exact h.writerStep timedOut
  | stop => exact h.stopStep
  | setLevel level => exact h.of_eq rfl rfl rfl le_rfl h.exchanged h.opened h.joined

/-- No call of `log` is under way, and if the logger was stopped, nothing is left in the buffers. -/
structure Drained (logger : AsyncLogger) : Prop where
  calls : logger.calls = []
  buffers : logger.stopper = .returned → logger.frontBuffer = [] ∧ logger.backBuffer = []

theorem writeToFile_frame (logger : AsyncLogger) (entry : LogEntry) :
    (logger.writeToFile entry).calls = logger.calls ∧
      (logger.writeToFile entry).stopper = logger.stopper := by
  unfold writeToFile
  split <;> exact ⟨rfl, rfl⟩

theorem writerStep_frame (logger : AsyncLogger) (timedOut : Bool) :
    (logger.writerStep timedOut).calls = logger.calls ∧
      (logger.writerStep timedOut).stopper = logger.stopper := by
  unfold AsyncLogger.writerStep
  cases logger.writer with
  | writing =>
    dsimp only
    split
    · exact writeToFile_frame _ _
    · exact ⟨rfl, rfl⟩
  | locking | sleeping =>
    dsimp only
    split <;> exact ⟨rfl, rfl⟩
  | testing | predicate | awake | swapping | done => exact ⟨rfl, rfl⟩

theorem Drained.writerStep (h : logger.Drained) (hordered : logger.Ordered) (timedOut : Bool) :
    (logger.writerStep timedOut).Drained := by
  obtain ⟨hcalls, hstopper⟩ := writerStep_frame logger timedOut
  refine ⟨hcalls.trans h.calls, fun hreturned ↦ ?_⟩
  rw [hstopper] at hreturned
  have hdone := hordered.joined (.inr hreturned)
  unfold AsyncLogger.writerStep
  rw [hdone]
  exact h.buffers hreturned

theorem Drained.stopStep (h : logger.Drained) : logger.stopStep.Drained := by
  unfold AsyncLogger.stopStep
  cases hstopper : logger.stopper with
  | idle =>
    dsimp only
    split
    · exact ⟨h.calls, fun hreturned ↦ absurd hreturned (by simp)⟩
    · exact h
  | joining =>
    dsimp only
    split
    · exact ⟨h.calls, fun hreturned ↦ absurd hreturned (by simp)⟩
    · exact h
  | draining =>
    dsimp only
    split
    · rename_i entry rest _
      obtain ⟨hcalls, hsame⟩ := writeToFile_frame logger entry
      refine ⟨hcalls.trans h.calls, fun hreturned ↦ ?_⟩
      exact absurd (hsame.symm.trans hreturned) (by simp [hstopper])
    · rename_i entry rest _ _
      obtain ⟨hcalls, hsame⟩ := writeToFile_frame logger entry
      refine ⟨hcalls.trans h.calls, fun hreturned ↦ ?_⟩
      exact absurd (hsame.symm.trans hreturned) (by simp [hstopper])
    · rename_i hfront hback
      exact ⟨h.calls, fun _ ↦ ⟨hfront, hback⟩⟩
  | returned => exact h

/-- Without new calls of `log` the logger stays drained. -/
theorem Drained.step (h : logger.Drained) (hordered : logger.Ordered) {input : LoggerInput}
    (hinput : ∀ call, input ≠ .log call) : (logger.step input).Drained := by
  cases input with
  | log call => exact absurd rfl (hinput call)
  | push index =>
    unfold AsyncLogger.step AsyncLogger.push
    rw [h.calls]
    simpa using h
  | writer timedOut => exact h.writerStep hordered timedOut
  | stop => exact h.stopStep
  | setLevel level => exact ⟨h.calls, h.buffers⟩

/-! ## Results -/

theorem ordered_run (level : LogLevel) {maxQueueSize : ℕ} (hroom : 1 ≤ maxQueueSize)
    (inputs : List LoggerInput) : (run step (init level maxQueueSize) inputs).Ordered :=
  run_invariant_of_forall (fun _ input h ↦ h.step input) (ordered_init level hroom) inputs

/-- After a call of `stop` without concurrent or later calls of `log` the buffers are empty. -/
theorem drained_run (level : LogLevel) {maxQueueSize : ℕ} (hroom : 1 ≤ maxQueueSize)
    {before after : List LoggerInput}
    (hidle : (run step (init level maxQueueSize) before).stopper = .idle)
    (hcalls : (run step (init level maxQueueSize) before).calls = [])
    (hafter : ∀ call, .log call ∉ after) :
    (run step (init level maxQueueSize) (before ++ after)).Drained := by
  have hstart : (run step (init level maxQueueSize) before).Drained :=
    ⟨hcalls, fun hreturned ↦ absurd (hidle.symm.trans hreturned) (by decide)⟩
  have hallowed : ∀ input ∈ after, ∀ call, input ≠ .log call := by
    rintro input hmem call rfl
    exact hafter call hmem
  have hinputs := always_of_forall step hallowed (run step (init level maxQueueSize) before)
  have hstep (logger : AsyncLogger) (input : LoggerInput) (h : logger.Ordered ∧ logger.Drained)
      (hinput : ∀ call, input ≠ .log call) :
      (logger.step input).Ordered ∧ (logger.step input).Drained :=
    ⟨h.1.step input, h.2.step h.1 hinput⟩
  rw [run_append]
  exact (run_invariant hstep ⟨ordered_run level hroom before, hstart⟩ hinputs).2

/-- The log keeps its order and loses only the oldest overflow, the front buffer is bounded, and a
`stop` without concurrent or later calls of `log` leaves nothing behind. -/
theorem log_keeps_order (level : LogLevel) {maxQueueSize : ℕ} (hroom : 1 ≤ maxQueueSize)
    (inputs : List LoggerInput) :
    (run step (init level maxQueueSize) inputs).Faithful ∧
    ∀ before after, inputs = before ++ after →
      (run step (init level maxQueueSize) before).stopper = .idle →
      (run step (init level maxQueueSize) before).calls = [] → (∀ call, .log call ∉ after) →
      (run step (init level maxQueueSize) inputs).stopper = .returned →
      (run step (init level maxQueueSize) inputs).frontBuffer = [] ∧
        (run step (init level maxQueueSize) inputs).backBuffer = [] := by
  refine ⟨(ordered_run level hroom inputs).toFaithful, ?_⟩
  rintro before after rfl hidle hcalls hafter hreturned
  exact (drained_run level hroom hidle hcalls hafter).buffers hreturned

/-- Two lines for a front buffer of one. -/
def overflowInputs : List LoggerInput :=
  [.log ⟨.info, [], [], 1, []⟩, .log ⟨.info, [], [], 2, []⟩, .push 0, .push 0]

/-- The end of a logger: the writer finds `_running` unset, and `stop` writes one line. -/
def stopInputs : List LoggerInput :=
  [.stop, .writer false, .writer false, .stop, .stop, .stop]

theorem log_keeps_order_overflowInputs :
    (run step (init .info 1) (overflowInputs ++ stopInputs)).Faithful ∧
      (run step (init .info 1) (overflowInputs ++ stopInputs)).frontBuffer = [] ∧
        (run step (init .info 1) (overflowInputs ++ stopInputs)).backBuffer = [] :=
  have h := log_keeps_order .info le_rfl (overflowInputs ++ stopInputs)
  ⟨h.1, h.2 overflowInputs stopInputs rfl (by decide) (by decide)
    (by simp [stopInputs]) (by decide)⟩

end AsyncLogger

end WebServer
