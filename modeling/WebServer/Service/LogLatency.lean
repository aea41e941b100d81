import Mathlib.Data.List.Nodup
import WebServer.Service.LogStop

/-!
# How long a line waits

While the logger runs, a line waits for the lines before it in the front buffer and for the batch that the
writer is writing, and for nothing else. So it reaches the file within a number of steps of the writer
that depends on the size of the front buffer alone, however much is logged meanwhile, unless it was the
oldest line of a full front buffer.
-/

namespace WebServer

open Bytes Execution

/-- How many steps the writer is from the exchange of the buffers while there are lines in the front
buffer and none in the back buffer. -/
def WriterPosition.untilSwap : WriterPosition → ℕ
  | swapping | done => 0
  | awake => 1
  | predicate => 2
  | sleeping | testing => 3
  | locking => 4
  | writing => 5

namespace AsyncLogger

variable {logger : AsyncLogger} {entry : LogEntry}

/-- `stop` is not called. -/
structure Running (logger : AsyncLogger) : Prop extends Ordered logger where
  set : logger.running = true
  idle : logger.stopper = .idle
  alive : logger.writer ≠ .done
  batch : logger.backBuffer.length ≤ logger.maxQueueSize

/-- The line waits in one of the buffers. -/
def Waiting (entry : LogEntry) (logger : AsyncLogger) : Prop :=
  entry ∈ logger.backBuffer ∨ entry ∈ logger.frontBuffer

/-- How many steps of the writer the line waits. -/
def waitMeasure (entry : LogEntry) (logger : AsyncLogger) : ℕ :=
  if entry ∈ logger.backBuffer then logger.backBuffer.idxOf entry + 1
  else logger.frontBuffer.idxOf entry + 1 + logger.backBuffer.length + logger.writer.untilSwap + 1

theorem waitMeasure_back (h : entry ∈ logger.backBuffer) :
    waitMeasure entry logger = logger.backBuffer.idxOf entry + 1 :=
  if_pos h

theorem waitMeasure_front (h : entry ∉ logger.backBuffer) :
    waitMeasure entry logger = logger.frontBuffer.idxOf entry + 1 + logger.backBuffer.length +
      logger.writer.untilSwap + 1 :=
  if_neg h

/-- No line is in the buffers twice. -/
theorem Ordered.nodup_lines (h : logger.Ordered) : logger.lines.Nodup := by
  have hnumbers : ((logger.pushes.map LogPush.entry).map LogEntry.number).Nodup := by
    rw [List.map_map, Function.comp_def, h.numbered]
    exact List.nodup_range
  exact (List.Nodup.of_map _ hnumbers).sublist h.kept.sublist

theorem Ordered.number_lt (h : logger.Ordered) (hmem : entry ∈ logger.pushes.map LogPush.entry) :
    entry.number < logger.pushes.length := by
  have hnumber : entry.number ∈ logger.pushes.map fun push ↦ push.entry.number := by
    rw [← Function.comp_def, ← List.map_map]
    exact List.mem_map_of_mem hmem
  rw [h.numbered] at hnumber
  exact List.mem_range.mp hnumber

/-- A line that was put into the front buffer is in the file, unless it waits or was lost by an
overflow. -/
theorem Ordered.mem_file (h : logger.Ordered) (hmem : entry ∈ logger.pushes.map LogPush.entry)
    (hwaiting : ¬ Waiting entry logger) : entry ∈ logger.file ∨ logger.Overflowed entry := by
  refine (h.kept.mem_or hmem).imp_left fun hkept ↦ ?_
  simp only [lines, List.mem_append, or_assoc] at hkept
  exact hkept.resolve_right hwaiting

/-! ## The steps -/

theorem Running.writerStep_waits (h : logger.Running) (hwaiting : Waiting entry logger)
    (timedOut : Bool) : waitMeasure entry (logger.writerStep timedOut) < waitMeasure entry logger ∨
      ¬ Waiting entry (logger.writerStep timedOut) := by
  have hset := h.set
  have hlocks : logger.stopLocks = false := by simp [stopLocks, h.idle]
  have hopen : logger.fileOpen = true := h.opened (by simp [h.idle])
  have hnodup : (logger.backBuffer ++ logger.frontBuffer).Nodup := by
    have hlines := h.nodup_lines
    rw [lines, List.append_assoc] at hlines
    exact hlines.of_append_right
  by_cases hwriting : logger.writer = .writing
  · unfold writerStep
    rw [hwriting]
    dsimp only
    cases hback : logger.backBuffer with
    | nil =>
      refine .inl ?_
      simp [waitMeasure, hback, hwriting, WriterPosition.untilSwap]
    | cons first rest =>
      rw [hback, List.cons_append, List.nodup_cons] at hnodup
      simp only [writeToFile, hopen, if_true]
      by_cases hfirst : first = entry
      · refine .inr fun hstill ↦ hnodup.1 ?_
        rw [hfirst]
        exact List.mem_append.mpr hstill
      · refine .inl ?_
        by_cases hrest : entry ∈ rest
        · simp [waitMeasure, hback, hrest, List.idxOf_cons_ne _ hfirst]
        · simp [waitMeasure, hback, hrest, Ne.symm hfirst, hwriting]
  · have hback : logger.backBuffer = [] := h.exchanged hwriting
    have hfront : entry ∈ logger.frontBuffer := by simpa [Waiting, hback] using hwaiting
    have hne : logger.frontBuffer ≠ [] := List.ne_nil_of_mem hfront
    refine .inl ?_
    unfold writerStep
    cases hposition : logger.writer with
    | locking => simp [waitMeasure, hback, hlocks, hposition, WriterPosition.untilSwap]
    | testing => simp [waitMeasure, hback, hset, hposition, WriterPosition.untilSwap]
    | predicate => simp [waitMeasure, hback, hne, hposition, WriterPosition.untilSwap]
    | sleeping =>
      cases timedOut <;> simp [waitMeasure, hback, hlocks, hposition, WriterPosition.untilSwap]
    | awake => simp [waitMeasure, hback, hset, hposition, WriterPosition.untilSwap]
    | swapping =>
      simp only [waitMeasure, hback, hfront, if_true, List.not_mem_nil, if_false]
      omega
    | writing => exact absurd hposition hwriting
    | done => exact absurd hposition h.alive

theorem idxOf_tail_le {front : List LogEntry} (h : front.Nodup) (hmem : entry ∈ front.tail) :
    front.tail.idxOf entry ≤ front.idxOf entry := by
  cases front with
  | nil => exact le_rfl
  | cons first rest =>
    have hne : first ≠ entry := by
      rintro rfl
      exact (List.nodup_cons.mp h).1 hmem
    rw [List.tail_cons, List.idxOf_cons_ne rest hne]
    exact Nat.le_succ _

/-- The lines behind a line do not make it wait longer. -/
theorem Running.pushFront_waits (h : logger.Running) (hnumber : entry.number < logger.pushes.length)
    (text : Bytes) : waitMeasure entry (logger.pushFront text) ≤ waitMeasure entry logger ∨
      ¬ Waiting entry (logger.pushFront text) := by
  have hnew : entry ≠ ⟨logger.pushes.length, text⟩ := by
    rintro rfl
    exact absurd hnumber (Nat.lt_irrefl _)
  have hnodup : logger.frontBuffer.Nodup := h.nodup_lines.of_append_right
  obtain ⟨kept, hfront, hle⟩ : ∃ kept,
      (logger.pushFront text).frontBuffer = kept ++ [⟨logger.pushes.length, text⟩] ∧
        (entry ∈ kept → kept.idxOf entry ≤ logger.frontBuffer.idxOf entry) := by
    by_cases hfull : logger.maxQueueSize ≤ logger.frontBuffer.length
    · exact ⟨logger.frontBuffer.tail, by simp [pushFront, hfull], idxOf_tail_le hnodup⟩
    · exact ⟨logger.frontBuffer, by simp [pushFront, hfull], fun _ ↦ le_rfl⟩
  have hsame : (logger.pushFront text).backBuffer = logger.backBuffer ∧
      (logger.pushFront text).writer = logger.writer := ⟨rfl, rfl⟩
  by_cases hback : entry ∈ logger.backBuffer
  · rw [waitMeasure_back hback, waitMeasure_back (hsame.1.symm ▸ hback), hsame.1]
    exact .inl le_rfl
  by_cases hkept : entry ∈ kept
  · have hindex := hle hkept
    rw [waitMeasure_front hback, waitMeasure_front (hsame.1.symm ▸ hback), hfront,
      List.idxOf_append_of_mem hkept, hsame.1, hsame.2]
    omega
  · refine .inr ?_
    simp [Waiting, hsame, hback, hfront, hkept, hnew]

/-- The line does not wait any more. -/
theorem not_waiting_pushFront (hnumber : entry.number < logger.pushes.length)
    (hwaiting : ¬ Waiting entry logger) (text : Bytes) : ¬ Waiting entry (logger.pushFront text) := by
  have hnew : entry ≠ ⟨logger.pushes.length, text⟩ := by
    rintro rfl
    exact absurd hnumber (Nat.lt_irrefl _)
  rw [Waiting, not_or] at hwaiting ⊢
  refine ⟨hwaiting.1, ?_⟩
  unfold pushFront
  dsimp only
  split
  · have htail : entry ∉ logger.frontBuffer.tail := fun hmem ↦ hwaiting.2 (List.mem_of_mem_tail hmem)
    simp [hnew, htail]
  · simp [hnew, hwaiting.2]

/-- The writer puts nothing into the buffers. -/
theorem waiting_of_writerStep {timedOut : Bool} (h : Waiting entry (logger.writerStep timedOut)) :
    Waiting entry logger := by
  unfold Waiting writerStep at h
  cases hposition : logger.writer with
  | locking | sleeping =>
    rw [hposition] at h
    dsimp only at h
    split at h <;> exact h
  | testing | predicate | awake | done =>
    rw [hposition] at h
    exact h
  | swapping =>
    rw [hposition] at h
    exact h.symm
  | writing =>
    rw [hposition] at h
    dsimp only at h
    split at h
    · rename_i first rest hback
      have hfront : (logger.writeToFile first).frontBuffer = logger.frontBuffer := by
        unfold writeToFile
        split <;> rfl
      rw [hfront] at h
      exact h.imp_left fun hmem ↦ hback ▸ List.mem_cons_of_mem first hmem
    · exact h

theorem Running.alive_writerStep (h : logger.Running) (timedOut : Bool) :
    (logger.writerStep timedOut).writer ≠ .done := by
  have hset := h.set
  have halive := h.alive
  unfold writerStep
  cases hposition : logger.writer with
  | locking =>
    dsimp only
    split
    · exact halive
    · simp
  | sleeping =>
    dsimp only
    split
    · exact halive
    · cases timedOut <;> simp
  | testing => simp [hset]
  | predicate =>
    dsimp only
    split <;> simp
  | awake => simp [hset]
  | swapping => simp
  | writing =>
    dsimp only
    split
    · rename_i first rest _
      have hwriter : (logger.writeToFile first).writer = logger.writer := by
        unfold writeToFile
        split <;> rfl
      simp [hwriter, halive]
    · simp
  | done => exact absurd hposition halive

theorem Running.batch_writerStep (h : logger.Running) (timedOut : Bool) :
    (logger.writerStep timedOut).backBuffer.length ≤ (logger.writerStep timedOut).maxQueueSize := by
  have hbatch := h.batch
  unfold writerStep
  cases logger.writer with
  | locking | sleeping =>
    dsimp only
    split <;> exact hbatch
  | testing | predicate | awake | done => exact hbatch
  | swapping => exact h.bounded
  | writing =>
    dsimp only
    split
    · rename_i first rest hback
      have hmax : (logger.writeToFile first).maxQueueSize = logger.maxQueueSize := by
        unfold writeToFile
        split <;> rfl
      rw [hback, List.length_cons] at hbatch
      simpa [hmax] using Nat.le_of_lt hbatch
    · exact hbatch

theorem Running.step (h : logger.Running) {input : LoggerInput} (hinput : input ≠ .stop) :
    (logger.step input).Running := by
  have hordered := h.toOrdered.step input
  cases input with
  | log call =>
    rw [AsyncLogger.step] at hordered ⊢
    unfold AsyncLogger.log at hordered ⊢
    split
    · exact h
    · rename_i hlevel
      rw [if_neg hlevel] at hordered
      split
      · exact h
      · rename_i hset
        rw [if_neg hset] at hordered
        exact ⟨hordered, h.set, h.idle, h.alive, h.batch⟩
  | push index =>
    rw [AsyncLogger.step] at hordered ⊢
    obtain hsame | ⟨text, -, hpush⟩ := push_cases logger index
    · rw [hsame]
      exact h
    · rw [hpush] at hordered ⊢
      exact ⟨hordered, h.set, h.idle, h.alive, h.batch⟩
  | writer timedOut =>
    have hframe := (writerStep_frame logger timedOut).2
    exact ⟨hordered, (running_writerStep logger timedOut).trans h.set, hframe.trans h.idle,
      h.alive_writerStep timedOut, h.batch_writerStep timedOut⟩
  | stop => exact absurd rfl hinput
  | setLevel level => exact ⟨hordered, h.set, h.idle, h.alive, h.batch⟩

theorem Running.step_waits (h : logger.Running) (hnumber : entry.number < logger.pushes.length)
    {input : LoggerInput} (hinput : input ≠ .stop) :
    waitMeasure entry (logger.step input) ≤ waitMeasure entry logger ∨
      ¬ Waiting entry (logger.step input) := by
  cases input with
  | log call =>
    rw [AsyncLogger.step, AsyncLogger.log]
    split
    · exact .inl le_rfl
    · split <;> exact .inl le_rfl
  | push index =>
    rw [AsyncLogger.step]
    obtain hsame | ⟨text, -, hpush⟩ := push_cases logger index
    · rw [hsame]
      exact .inl le_rfl
    · rw [hpush]
      exact h.pushFront_waits hnumber text
  | writer timedOut =>
    by_cases hwaiting : Waiting entry logger
    · exact (h.writerStep_waits hwaiting timedOut).imp_left Nat.le_of_lt
    · exact .inr fun hstill ↦ hwaiting (waiting_of_writerStep hstill)
  | stop => exact absurd rfl hinput
  | setLevel level => exact .inl le_rfl

theorem writeToFile_record (logger : AsyncLogger) (entry : LogEntry) :
    (logger.writeToFile entry).pushes = logger.pushes ∧
      (logger.writeToFile entry).maxQueueSize = logger.maxQueueSize := by
  unfold writeToFile
  split <;> exact ⟨rfl, rfl⟩

theorem writerStep_record (logger : AsyncLogger) (timedOut : Bool) :
    (logger.writerStep timedOut).pushes = logger.pushes ∧
      (logger.writerStep timedOut).maxQueueSize = logger.maxQueueSize := by
  unfold writerStep
  cases logger.writer with
  | writing =>
    dsimp only
    split
    · exact writeToFile_record logger _
    · exact ⟨rfl, rfl⟩
  | locking | sleeping =>
    dsimp only
    split <;> exact ⟨rfl, rfl⟩
  | testing | predicate | awake | swapping | done => exact ⟨rfl, rfl⟩

theorem stopStep_record (logger : AsyncLogger) :
    logger.stopStep.pushes = logger.pushes ∧
      logger.stopStep.maxQueueSize = logger.maxQueueSize := by
  unfold stopStep
  split
  · split <;> exact ⟨rfl, rfl⟩
  · split <;> exact ⟨rfl, rfl⟩
  · split
    · exact writeToFile_record logger _
    · exact writeToFile_record logger _
    · exact ⟨rfl, rfl⟩
  · exact ⟨rfl, rfl⟩

/-- What was put into the front buffer is not forgotten. -/
theorem step_record (logger : AsyncLogger) (input : LoggerInput) :
    logger.pushes <+: (logger.step input).pushes ∧
      (logger.step input).maxQueueSize = logger.maxQueueSize := by
  cases input with
  | log call =>
    rw [AsyncLogger.step, AsyncLogger.log]
    split
    · exact ⟨List.prefix_rfl, rfl⟩
    · split <;> exact ⟨List.prefix_rfl, rfl⟩
  | push index =>
    rw [AsyncLogger.step]
    obtain hsame | ⟨text, -, hpush⟩ := push_cases logger index
    · rw [hsame]
      exact ⟨List.prefix_rfl, rfl⟩
    · rw [hpush]
      exact ⟨List.prefix_append _ _, rfl⟩
  | writer timedOut =>
    rw [AsyncLogger.step, (writerStep_record logger timedOut).1]
    exact ⟨List.prefix_rfl, (writerStep_record logger timedOut).2⟩
  | stop =>
    rw [AsyncLogger.step, (stopStep_record logger).1]
    exact ⟨List.prefix_rfl, (stopStep_record logger).2⟩
  | setLevel level => exact ⟨List.prefix_rfl, rfl⟩

theorem run_record (logger : AsyncLogger) (inputs : List LoggerInput) :
    logger.pushes <+: (run AsyncLogger.step logger inputs).pushes ∧
      (run AsyncLogger.step logger inputs).maxQueueSize = logger.maxQueueSize := by
  induction inputs generalizing logger with
  | nil => exact ⟨List.prefix_rfl, rfl⟩
  | cons input inputs ih =>
    have hstep := step_record logger input
    have hrun := ih (logger.step input)
    exact ⟨hstep.1.trans hrun.1, hrun.2.trans hstep.2⟩

theorem not_waiting_step (hnumber : entry.number < logger.pushes.length)
    (hwaiting : ¬ Waiting entry logger) {input : LoggerInput} (hinput : input ≠ .stop) :
    ¬ Waiting entry (logger.step input) := by
  cases input with
  | log call =>
    rw [AsyncLogger.step, AsyncLogger.log]
    split
    · exact hwaiting
    · split <;> exact hwaiting
  | push index =>
    rw [AsyncLogger.step]
    obtain hsame | ⟨text, -, hpush⟩ := push_cases logger index
    · rw [hsame]
      exact hwaiting
    · rw [hpush]
      exact not_waiting_pushFront hnumber hwaiting text
  | writer timedOut => exact fun hstill ↦ hwaiting (waiting_of_writerStep hstill)
  | stop => exact absurd rfl hinput
  | setLevel level => exact hwaiting

/-! ## Results -/

/-- Every schedule without `stop` that goes on with the writer ends the wait of a line. -/
def lineProgress (entry : LogEntry) : Progress AsyncLogger.step (· ≠ .stop) Unit where
  invariant logger := logger.Running ∧ entry.number < logger.pushes.length
  finished logger := ¬ Waiting entry logger
  measure := waitMeasure entry
  moves _ input := ∃ timedOut, input = .writer timedOut
  enabled _ _ := True
  kept logger input h hinput :=
    ⟨h.1.step hinput, h.2.trans_le (step_record logger input).1.length_le⟩
  stays _ input h hinput hfinished := not_waiting_step h.2 hfinished hinput
  falls _ _ h hinput := h.1.step_waits h.2 hinput
  live _ _ _ := ⟨(), trivial⟩
  fires logger input _ h _ hfinished _ hmoves := by
    obtain ⟨timedOut, rfl⟩ := hmoves
    exact h.1.writerStep_waits (not_not.mp hfinished) timedOut
  waits _ _ _ _ _ _ _ := .inl trivial

theorem running_run (level : LogLevel) {maxQueueSize : ℕ} (hroom : 1 ≤ maxQueueSize)
    {inputs : List LoggerInput} (hstop : .stop ∉ inputs) :
    (run step (init level maxQueueSize) inputs).Running := by
  have hstart : (init level maxQueueSize).Running :=
    ⟨ordered_init level hroom, rfl, rfl, by simp [init], Nat.zero_le _⟩
  have hinputs : ∀ input ∈ inputs, input ≠ .stop := fun _ hmem hsame ↦ hstop (hsame ▸ hmem)
  exact run_invariant (fun _ _ h hinput ↦ h.step hinput) hstart (always_of_forall step hinputs _)

/-- A line waits for at most two full buffers. -/
theorem Running.waitMeasure_le (h : logger.Running) (entry : LogEntry) :
    waitMeasure entry logger ≤ 2 * logger.maxQueueSize + 7 := by
  have hbatch := h.batch
  have hbounded := h.bounded
  have hback : logger.backBuffer.idxOf entry ≤ logger.backBuffer.length := List.idxOf_le_length
  have hfront : logger.frontBuffer.idxOf entry ≤ logger.frontBuffer.length := List.idxOf_le_length
  have huntil : logger.writer.untilSwap ≤ 5 := by
    cases logger.writer <;> decide
  unfold waitMeasure
  split <;> omega

/-- However much is logged, a line is in the file after a number of steps of the writer that depends on
the size of the front buffer alone, or an overflow has lost it. -/
theorem written_within_rounds (level : LogLevel) {maxQueueSize : ℕ} (hroom : 1 ≤ maxQueueSize)
    (before : List LoggerInput) (rounds : List (List LoggerInput)) (hbefore : .stop ∉ before)
    (hrounds : ∀ round ∈ rounds, .stop ∉ round ∧ ∃ timedOut, .writer timedOut ∈ round)
    (hlength : 2 * maxQueueSize + 7 < rounds.length) :
    let last := run step (init level maxQueueSize) (before ++ rounds.flatten)
    ∀ push ∈ (run step (init level maxQueueSize) before).pushes,
      push.entry ∈ last.file ∨ last.Overflowed push.entry := by
  intro last push hmem
  have hrunning := running_run level hroom hbefore
  have hordered : last.Ordered := ordered_run level hroom _
  have hentry : push.entry ∈
      (run step (init level maxQueueSize) before).pushes.map LogPush.entry :=
    List.mem_map_of_mem hmem
  have hpushed : push.entry ∈ last.pushes.map LogPush.entry := by
    have hrecord := run_record (run step (init level maxQueueSize) before) rounds.flatten
    rw [← run_append] at hrecord
    exact (hrecord.1.map LogPush.entry).subset hentry
  have hallowed : ∀ round ∈ rounds, ∀ input ∈ round, input ≠ .stop := by
    rintro round hround input hinput rfl
    exact (hrounds round hround).1 hinput
  have hfair : ∀ round ∈ rounds, ∀ _ : Unit, ∃ input ∈ round, ∃ timedOut, input = .writer timedOut := by
    intro round hround _
    obtain ⟨timedOut, hwriter⟩ := (hrounds round hround).2
    exact ⟨_, hwriter, timedOut, rfl⟩
  have hmeasure := hrunning.waitMeasure_le push.entry
  rw [(run_record (init level maxQueueSize) before).2] at hmeasure
  have hend := (lineProgress push.entry).finished_of_rounds
    ⟨hrunning, hrunning.number_lt hentry⟩ hallowed hfair (hmeasure.trans_lt hlength)
  rw [← run_append] at hend
  exact hordered.mem_file hpushed hend

theorem written_within_rounds_one :
    let inputs : List LoggerInput := [.log ⟨.info, [], [], 1, []⟩, .push 0]
    let last := run step (init .info 1) (inputs ++ (List.replicate 10 [.writer false]).flatten)
    ∀ push ∈ (run step (init .info 1) inputs).pushes,
      push.entry ∈ last.file ∨ last.Overflowed push.entry :=
  written_within_rounds .info le_rfl _ _ (by simp)
    (fun round hmem ↦ (List.eq_of_mem_replicate hmem) ▸ ⟨by simp, false, by simp⟩) (by decide)

end AsyncLogger

end WebServer
