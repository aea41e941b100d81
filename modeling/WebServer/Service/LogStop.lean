import Mathlib.Data.List.Perm.Basic
import WebServer.Foundation.Progress
import WebServer.Service.LogOrder

/-!
# The end of the log

`stop` unsets `_running`, waits for the writer thread and writes what the buffers still hold. The writer
tests `_running` at every turn of its loop, so `stop` returns under every schedule that lets both of them
go on, whatever the threads that log do meanwhile. A thread that found `_running` set may still put its
line into the front buffer afterwards: when `stop` has returned, these lines stay there for ever, and all
the lines before them are in the file but for the ones an overflow has dropped.
-/

namespace WebServer

open Bytes Execution

/-! ## The call of stop returns -/

/-- How many steps the writer is from its end when `_running` is unset and the buffers are empty. -/
def WriterPosition.rank : WriterPosition → ℕ
  | done => 0
  | testing => 1
  | locking => 2
  | writing => 3
  | swapping => 4
  | awake => 5
  | predicate => 6
  | sleeping => 7

def StopPosition.rank : StopPosition → ℕ
  | returned => 0
  | draining => 1
  | joining => 2
  | idle => 3

/-- The threads whose steps `stop` waits for. -/
inductive StopParty where
  | writer
  | stopper

/-- The input is a step of this thread. -/
def StopParty.Moves : StopParty → LoggerInput → Prop
  | writer, input => ∃ timedOut, input = .writer timedOut
  | stopper, input => input = .stop

/-- `stop` can go on when the writer has ended. -/
def StopParty.Enabled : StopParty → AsyncLogger → Prop
  | writer, logger => logger.writer ≠ .done
  | stopper, logger => logger.writer = .done ∧ logger.stopper ≠ .returned

namespace AsyncLogger

variable {logger : AsyncLogger}

/-- What is left to do for `stop`: positions, lines in the buffers, and lines still to be put there. -/
def stopMeasure (logger : AsyncLogger) : ℕ :=
  logger.writer.rank + logger.stopper.rank + logger.frontBuffer.length + logger.backBuffer.length +
    2 * logger.calls.length

/-- `stop` has begun. -/
structure Stopping (logger : AsyncLogger) : Prop extends Ordered logger where
  begun : logger.stopper ≠ .idle
  unset : logger.running = false

theorem Stopping.of_ordered (h : logger.Stopping) {logger' : AsyncLogger} (hordered : logger'.Ordered)
    (hbegun : logger'.stopper ≠ .idle) (hrunning : logger'.running = logger.running) :
    logger'.Stopping :=
  ⟨hordered, hbegun, hrunning.trans h.unset⟩

theorem running_writerStep (logger : AsyncLogger) (timedOut : Bool) :
    (logger.writerStep timedOut).running = logger.running := by
  unfold writerStep
  split
  · split <;> rfl
  · rfl
  · rfl
  · split <;> rfl
  · rfl
  · rfl
  · split
    · unfold writeToFile
      split <;> rfl
    · rfl
  · rfl

/-- Behind `_running` unset, a step of the writer brings it nearer to its end. -/
theorem Stopping.writerStep_lt (h : logger.Stopping) (hwriter : logger.writer ≠ .done)
    (timedOut : Bool) : (logger.writerStep timedOut).stopMeasure < logger.stopMeasure := by
  have hlocks : logger.stopLocks = false := by
    apply decide_eq_false
    intro hdraining
    exact hwriter (h.joined (.inl hdraining))
  have hrunning := h.unset
  unfold writerStep
  cases hposition : logger.writer with
  | locking => simp [hlocks, stopMeasure, hposition, WriterPosition.rank]
  | testing => simp [hrunning, stopMeasure, hposition, WriterPosition.rank]
  | predicate => simp [hrunning, stopMeasure, hposition, WriterPosition.rank]
  | sleeping => cases timedOut <;> simp [hlocks, stopMeasure, hposition, WriterPosition.rank]
  | awake =>
    by_cases hfront : logger.frontBuffer = [] <;>
      simp [hrunning, hfront, stopMeasure, hposition, WriterPosition.rank]
  | swapping =>
    simp only [stopMeasure, hposition, WriterPosition.rank]
    omega
  | writing =>
    have hopen : logger.fileOpen = true := h.opened fun hreturned ↦ hwriter (h.joined (.inr hreturned))
    cases hback : logger.backBuffer with
    | nil => simp [stopMeasure, hposition, hback, WriterPosition.rank]
    | cons entry rest =>
      simp [writeToFile, hopen, stopMeasure, hposition, hback, WriterPosition.rank]
  | done => exact absurd hposition hwriter

/-- When the writer has ended, so does a step of `stop`. -/
theorem Stopping.stopStep_lt (h : logger.Stopping) (hwriter : logger.writer = .done)
    (hstopper : logger.stopper ≠ .returned) : logger.stopStep.stopMeasure < logger.stopMeasure := by
  unfold stopStep
  cases hposition : logger.stopper with
  | idle => exact absurd hposition h.begun
  | joining => simp [hwriter, stopMeasure, hposition, StopPosition.rank]
  | draining =>
    have hopen : logger.fileOpen = true := h.opened hstopper
    have hback : logger.backBuffer = [] := h.exchanged (by simp [hwriter])
    cases hfront : logger.frontBuffer with
    | nil => simp [hback, stopMeasure, hposition, hfront, StopPosition.rank]
    | cons entry rest =>
      simp [writeToFile, hopen, stopMeasure, hfront]
  | returned => exact absurd hposition hstopper

theorem stopStep_of_waiting (h : logger.Stopping)
    (hwait : logger.writer ≠ .done ∨ logger.stopper = .returned) : logger.stopStep = logger := by
  unfold stopStep
  cases hposition : logger.stopper with
  | idle => exact absurd hposition h.begun
  | joining =>
    have hwriter : logger.writer ≠ .done := hwait.resolve_right (by simp [hposition])
    simp [hwriter]
  | draining =>
    have hwriter : logger.writer = .done := h.joined (.inl hposition)
    simp [hwriter, hposition] at hwait
  | returned => rfl

/-- A line that a thread still puts into the front buffer is one call less. -/
theorem stopMeasure_push (logger : AsyncLogger) (index : ℕ) :
    (logger.push index).stopMeasure ≤ logger.stopMeasure := by
  unfold push
  split
  · exact le_rfl
  · split
    · rename_i text hcall
      obtain ⟨hindex, -⟩ := List.getElem?_eq_some_iff.mp hcall
      have hcalls := List.length_eraseIdx_add_one hindex
      have hfront : (logger.pushFront text).frontBuffer.length ≤ logger.frontBuffer.length + 1 := by
        unfold pushFront
        dsimp only
        split <;> simp
      have hrest : (logger.pushFront text).backBuffer = logger.backBuffer ∧
          (logger.pushFront text).writer = logger.writer ∧
            (logger.pushFront text).stopper = logger.stopper := ⟨rfl, rfl, rfl⟩
      simp only [stopMeasure, hrest]
      omega
    · exact le_rfl

theorem log_of_unset (h : logger.running = false) (call : LogCall) : logger.log call = logger := by
  simp [AsyncLogger.log, h]

theorem push_frame (logger : AsyncLogger) (index : ℕ) :
    (logger.push index).writer = logger.writer ∧ (logger.push index).stopper = logger.stopper ∧
      (logger.push index).running = logger.running := by
  unfold push
  split
  · exact ⟨rfl, rfl, rfl⟩
  · split <;> exact ⟨rfl, rfl, rfl⟩

theorem stopStep_frame (h : logger.stopper ≠ .idle) :
    logger.stopStep.writer = logger.writer ∧ logger.stopStep.running = logger.running ∧
      logger.stopStep.stopper ≠ .idle := by
  unfold stopStep writeToFile
  split
  · rename_i hidle
    exact absurd hidle h
  · split
    · exact ⟨rfl, rfl, by simp⟩
    · exact ⟨rfl, rfl, h⟩
  · split
    · split <;> exact ⟨rfl, rfl, h⟩
    · split <;> exact ⟨rfl, rfl, h⟩
    · exact ⟨rfl, rfl, by simp⟩
  · exact ⟨rfl, rfl, h⟩

theorem Stopping.step (h : logger.Stopping) (input : LoggerInput) : (logger.step input).Stopping := by
  have hordered := h.toOrdered.step input
  cases input with
  | log call =>
    rw [AsyncLogger.step, log_of_unset h.unset]
    exact h
  | push index =>
    have hframe := push_frame logger index
    apply h.of_ordered hordered
    · rw [AsyncLogger.step, hframe.2.1]
      exact h.begun
    · exact hframe.2.2
  | writer timedOut =>
    apply h.of_ordered hordered
    · rw [AsyncLogger.step, (writerStep_frame logger timedOut).2]
      exact h.begun
    · exact running_writerStep logger timedOut
  | stop =>
    have hframe := stopStep_frame h.begun
    exact h.of_ordered hordered hframe.2.2 hframe.2.1
  | setLevel level => exact h.of_ordered hordered h.begun rfl

/-- A step brings the end nearer, or leaves the writer and `stop` where they are. -/
theorem Stopping.step_falls (h : logger.Stopping) (input : LoggerInput) :
    (logger.step input).stopMeasure < logger.stopMeasure ∨
      (logger.step input).stopMeasure ≤ logger.stopMeasure ∧
        (logger.step input).writer = logger.writer ∧ (logger.step input).stopper = logger.stopper := by
  cases input with
  | log call =>
    apply Or.inr
    rw [AsyncLogger.step, log_of_unset h.unset]
    exact ⟨le_rfl, rfl, rfl⟩
  | push index =>
    have hframe := push_frame logger index
    exact .inr ⟨stopMeasure_push logger index, hframe.1, hframe.2.1⟩
  | writer timedOut =>
    by_cases hdone : logger.writer = .done
    · have hsame : logger.writerStep timedOut = logger := by
        unfold writerStep
        rw [hdone]
      apply Or.inr
      rw [AsyncLogger.step, hsame]
      exact ⟨le_rfl, rfl, rfl⟩
    · exact .inl (h.writerStep_lt hdone timedOut)
  | stop =>
    by_cases hwait : logger.writer ≠ .done ∨ logger.stopper = .returned
    · apply Or.inr
      rw [AsyncLogger.step, stopStep_of_waiting h hwait]
      exact ⟨le_rfl, rfl, rfl⟩
    · simp only [not_or, ne_eq, not_not] at hwait
      exact .inl (h.stopStep_lt hwait.1 hwait.2)
  | setLevel level => exact .inr ⟨le_rfl, rfl, rfl⟩

theorem Stopping.step_returned (h : logger.Stopping) (hreturned : logger.stopper = .returned)
    (input : LoggerInput) : (logger.step input).stopper = .returned := by
  cases input with
  | log call =>
    rw [AsyncLogger.step, log_of_unset h.unset]
    exact hreturned
  | push index => exact (push_frame logger index).2.1.trans hreturned
  | writer timedOut => exact (writerStep_frame logger timedOut).2.trans hreturned
  | stop =>
    rw [AsyncLogger.step, stopStep_of_waiting h (.inr hreturned)]
    exact hreturned
  | setLevel level => exact hreturned

/-- Every schedule that goes on with the writer and with `stop` ends the call of `stop`. -/
def stopProgress : Progress AsyncLogger.step (fun _ ↦ True) StopParty where
  invariant := Stopping
  finished logger := logger.stopper = .returned
  measure := stopMeasure
  moves := StopParty.Moves
  enabled := StopParty.Enabled
  kept _ input h _ := h.step input
  stays _ input h _ hreturned := h.step_returned hreturned input
  falls logger input h _ := by
    obtain hlt | ⟨hle, -⟩ := h.step_falls input
    · exact .inl hlt.le
    · exact .inl hle
  live logger _ hreturned := by
    by_cases hdone : logger.writer = .done
    · exact ⟨.stopper, hdone, hreturned⟩
    · exact ⟨.writer, hdone⟩
  fires logger input party h _ _ henabled hmoves := by
    cases party with
    | writer =>
      obtain ⟨timedOut, rfl⟩ := hmoves
      exact .inl (h.writerStep_lt henabled timedOut)
    | stopper =>
      cases hmoves
      exact .inl (h.stopStep_lt henabled.1 henabled.2)
  waits logger input party h _ _ henabled := by
    obtain hlt | ⟨-, hwriter, hstopper⟩ := h.step_falls input
    · exact .inr (.inl hlt)
    · apply Or.inl
      cases party with
      | writer => exact fun hdone ↦ henabled (hwriter.symm.trans hdone)
      | stopper => exact ⟨hwriter.trans henabled.1, hstopper ▸ henabled.2⟩

/-! ## What stop leaves behind -/

/-- The logger behind the call of `stop` that returned in `last`: the file stays as it is, and the front
buffer has the newest of the lines that were put there since, by calls that had begun before. -/
structure Sealed (last logger : AsyncLogger) : Prop extends Stopping logger where
  returned : logger.stopper = .returned
  file : logger.file = last.file
  late : ∃ late : List LogPush, logger.pushes = last.pushes ++ late ∧
    logger.frontBuffer = (late.map LogPush.entry).drop (late.length - logger.maxQueueSize) ∧
    (late.map (fun push ↦ push.entry.text) ++ logger.calls).Perm last.calls

variable {last : AsyncLogger}

/-- A full front buffer loses its oldest line, so it goes on with the newest ones. -/
theorem pushFront_frontBuffer {late : List LogEntry} (hroom : 1 ≤ logger.maxQueueSize)
    (hfront : logger.frontBuffer = late.drop (late.length - logger.maxQueueSize)) (text : Bytes) :
    (logger.pushFront text).frontBuffer =
      (late ++ [(⟨logger.pushes.length, text⟩ : LogEntry)]).drop (late.length + 1 - logger.maxQueueSize) := by
  have hlength : logger.frontBuffer.length = late.length - (late.length - logger.maxQueueSize) := by
    rw [hfront, List.length_drop]
  have hcut : late.length + 1 - logger.maxQueueSize ≤ late.length := by omega
  rw [List.drop_append_of_le_length hcut, pushFront]
  dsimp only
  split
  · rename_i hfull
    have hnext : late.length + 1 - logger.maxQueueSize = late.length - logger.maxQueueSize + 1 := by
      omega
    rw [hfront, List.tail_drop, hnext]
  · rename_i hfull
    have hall : late.length - logger.maxQueueSize = 0 ∧ late.length + 1 - logger.maxQueueSize = 0 := by
      omega
    rw [hfront, hall.1, hall.2]

theorem push_cases (logger : AsyncLogger) (index : ℕ) :
    logger.push index = logger ∨ ∃ text, logger.calls[index]? = some text ∧
      logger.push index = { logger.pushFront text with calls := logger.calls.eraseIdx index } := by
  unfold push
  split
  · exact .inl rfl
  · split
    · rename_i text hcall
      exact .inr ⟨text, hcall, rfl⟩
    · exact .inl rfl

theorem Sealed.step (h : last.Sealed logger) (input : LoggerInput) :
    last.Sealed (logger.step input) := by
  have hstopping := h.toStopping.step input
  have hreturned := h.toStopping.step_returned h.returned input
  cases input with
  | log call =>
    rw [AsyncLogger.step, log_of_unset h.unset]
    exact h
  | push index =>
    rw [AsyncLogger.step] at hstopping hreturned ⊢
    obtain hsame | ⟨text, hcall, hpush⟩ := push_cases logger index
    · rw [hsame]
      exact h
    · obtain ⟨late, hpushes, hfront, hperm⟩ := h.late
      have hentries : logger.frontBuffer =
          (late.map LogPush.entry).drop ((late.map LogPush.entry).length - logger.maxQueueSize) := by
        rw [List.length_map]
        exact hfront
      obtain ⟨hindex, rfl⟩ := List.getElem?_eq_some_iff.mp hcall
      have herased := List.getElem_cons_eraseIdx_perm hindex
      rw [hpush] at hstopping hreturned ⊢
      refine ⟨hstopping, hreturned, h.file,
        late ++ [⟨⟨logger.pushes.length, logger.calls[index]⟩, logger.frontBuffer⟩], ?_, ?_, ?_⟩
      · simp [pushFront, hpushes]
      · have hnewest := pushFront_frontBuffer h.room hentries logger.calls[index]
        rw [List.length_map] at hnewest
        rw [hnewest]
        simp [pushFront]
      · have hmoved := (herased.append_left (late.map fun push ↦ push.entry.text)).trans hperm
        simpa using hmoved
  | writer timedOut =>
    have hdone := h.joined (.inr h.returned)
    have hsame : logger.writerStep timedOut = logger := by
      unfold writerStep
      rw [hdone]
    rw [AsyncLogger.step, hsame]
    exact h
  | stop =>
    rw [AsyncLogger.step, stopStep_of_waiting h.toStopping (.inr h.returned)]
    exact h
  | setLevel level =>
    obtain ⟨late, hlate⟩ := h.late
    exact ⟨hstopping, hreturned, h.file, late, hlate⟩

/-! ## Results -/

/-- The step with which `stop` begins. -/
theorem running_step_of_idle (h : logger.stopper = .idle) {input : LoggerInput}
    (hbegun : (logger.step input).stopper ≠ .idle) : (logger.step input).running = false := by
  cases input with
  | log call =>
    have hsame : (logger.log call).stopper = logger.stopper := by
      unfold AsyncLogger.log
      split
      · rfl
      · split <;> rfl
    exact absurd (hsame.trans h) hbegun
  | push index => exact absurd ((push_frame logger index).2.1.trans h) hbegun
  | writer timedOut => exact absurd ((writerStep_frame logger timedOut).2.trans h) hbegun
  | stop =>
    rw [AsyncLogger.step, stopStep, h] at hbegun ⊢
    dsimp only at hbegun ⊢
    split
    · rfl
    · rename_i hrunning
      simpa using hrunning
  | setLevel level => exact absurd h hbegun

theorem stopping_run (level : LogLevel) {maxQueueSize : ℕ} (hroom : 1 ≤ maxQueueSize)
    {inputs : List LoggerInput}
    (hbegun : (run step (init level maxQueueSize) inputs).stopper ≠ .idle) :
    (run step (init level maxQueueSize) inputs).Stopping := by
  have hstep (logger : AsyncLogger) (input : LoggerInput)
      (h : logger.Ordered ∧ (logger.stopper ≠ .idle → logger.Stopping)) :
      (logger.step input).Ordered ∧ ((logger.step input).stopper ≠ .idle →
        (logger.step input).Stopping) := by
    have hordered := h.1.step input
    refine ⟨hordered, fun hbegun ↦ ?_⟩
    by_cases hidle : logger.stopper = .idle
    · exact ⟨hordered, hbegun, running_step_of_idle hidle hbegun⟩
    · exact (h.2 hidle).step input
  have hstart : (init level maxQueueSize).Ordered ∧
      ((init level maxQueueSize).stopper ≠ .idle → (init level maxQueueSize).Stopping) :=
    ⟨ordered_init level hroom, fun hbegun ↦ absurd rfl hbegun⟩
  exact (run_invariant_of_forall hstep hstart inputs).2 hbegun

/-- With more rounds than there is left to do, `stop` returns. -/
theorem stop_returns (level : LogLevel) {maxQueueSize : ℕ} (hroom : 1 ≤ maxQueueSize)
    (before : List LoggerInput) (rounds : List (List LoggerInput))
    (hbegun : (run step (init level maxQueueSize) before).stopper ≠ .idle)
    (hfair : ∀ round ∈ rounds, .stop ∈ round ∧ ∃ timedOut, .writer timedOut ∈ round)
    (hlength : (run step (init level maxQueueSize) before).stopMeasure < rounds.length) :
    (run step (init level maxQueueSize) (before ++ rounds.flatten)).stopper = .returned := by
  have hstopping := stopping_run level hroom hbegun
  have hmoves : ∀ round ∈ rounds, ∀ party, ∃ input ∈ round, StopParty.Moves party input := by
    intro round hmem party
    obtain ⟨hstop, timedOut, hwriter⟩ := hfair round hmem
    cases party with
    | writer => exact ⟨_, hwriter, timedOut, rfl⟩
    | stopper => exact ⟨_, hstop, rfl⟩
  rw [run_append]
  exact stopProgress.finished_of_rounds hstopping (fun _ _ _ _ ↦ trivial) hmoves hlength

/-- Two calls of `log` before `stop` begins, the second of which has not locked the mutex yet. -/
def lateInputs : List LoggerInput :=
  [.log ⟨.info, [], [], 1, []⟩, .log ⟨.info, [], [], 2, []⟩, .push 0, .stop]

theorem stop_returns_lateInputs :
    (run step (init .info 1)
      (lateInputs ++ (List.replicate 8 [.stop, .writer false, .push 0]).flatten)).stopper = .returned :=
  stop_returns .info le_rfl lateInputs _ (by decide)
    (fun round hmem ↦ (List.eq_of_mem_replicate hmem) ▸ ⟨by simp, false, by simp⟩) (by decide)

/-- `stop` returns when it finds both buffers empty. -/
theorem stopStep_returned (hstopper : logger.stopper ≠ .returned)
    (hreturned : logger.stopStep.stopper = .returned) :
    logger.stopStep.frontBuffer = [] ∧ logger.stopStep.backBuffer = [] := by
  unfold stopStep at hreturned ⊢
  cases hposition : logger.stopper with
  | idle =>
    rw [hposition] at hreturned
    dsimp only at hreturned
    split at hreturned
    · exact absurd hreturned (by simp)
    · exact absurd (hposition.symm.trans hreturned) (by simp)
  | joining =>
    rw [hposition] at hreturned
    dsimp only at hreturned
    split at hreturned
    · exact absurd hreturned (by simp)
    · exact absurd (hposition.symm.trans hreturned) (by simp)
  | draining =>
    rw [hposition] at hreturned
    dsimp only at hreturned ⊢
    split at hreturned
    · rw [(writeToFile_frame logger _).2, hposition] at hreturned
      exact absurd hreturned (by simp)
    · rw [(writeToFile_frame logger _).2, hposition] at hreturned
      exact absurd hreturned (by simp)
    · rename_i hfront hback
      simp [hfront, hback]
  | returned => exact absurd hposition hstopper

/-- When `stop` returns, the file has all the lines but for the overflow, and it is not written any
more. -/
theorem stop_seals_file (level : LogLevel) {maxQueueSize : ℕ} (hroom : 1 ≤ maxQueueSize)
    (before after : List LoggerInput)
    (hbefore : (run step (init level maxQueueSize) before).stopper ≠ .returned)
    (hreturned : (run step (init level maxQueueSize) (before ++ [.stop])).stopper = .returned) :
    let last := run step (init level maxQueueSize) (before ++ [.stop])
    Thinning last.Overflowed (last.pushes.map LogPush.entry) last.file ∧
      last.Sealed (run step last after) := by
  intro last
  have hstopping : last.Stopping := stopping_run level hroom (by simp [hreturned])
  have hlast : last = (run step (init level maxQueueSize) before).stopStep := by
    simp [last, run_append, AsyncLogger.step]
  have hempty : last.frontBuffer = [] ∧ last.backBuffer = [] := by
    have hstop : last.stopper = .returned := hreturned
    rw [hlast] at hstop ⊢
    exact stopStep_returned hbefore hstop
  have hlines : last.lines = last.file := by
    simp [lines, hempty]
  have hsealed : last.Sealed last :=
    ⟨hstopping, hreturned, rfl, [], by simp, by simp [hempty], .refl _⟩
  refine ⟨hlines ▸ hstopping.kept, ?_⟩
  exact run_invariant_of_forall (fun _ input h ↦ h.step input) hsealed after

theorem stop_seals_file_lateInputs :
    let before := lateInputs ++ [.writer false, .writer false, .stop, .stop]
    let last := run step (init .info 1) (before ++ [.stop])
    Thinning last.Overflowed (last.pushes.map LogPush.entry) last.file ∧
      last.Sealed (run step last [.push 0]) :=
  stop_seals_file .info le_rfl _ _ (by decide) (by decide)

end AsyncLogger

end WebServer
