import Mathlib.Data.List.Perm.Basic
import WebServer.Foundation.Lines
import WebServer.Service.LogOrder

/-!
# The lines of the log file

A call of `log` that passes the level filter makes one record, which ends up in the file unless it is
lost in a full front buffer, and `writeToFile` puts one newline behind it. What stands in the message of
the call is written as it is, so the file has one line for each record if and only if no message brings
a newline of its own.
-/

namespace WebServer

open Bytes Execution Lines
open scoped List

/-! ## The text of a record -/

/-- A local time, taken apart as `std::put_time` writes it. -/
structure LocalTime where
  year : ℕ
  month : ℕ
  day : ℕ
  hour : ℕ
  minute : ℕ
  second : ℕ
  micros : ℕ

/-- A number with zeros in front of it up to the given width. -/
def padded (width n : ℕ) : Bytes := List.replicate (width - (decimal n).length) (digit 0) ++ decimal n

/-- The text of a time. -/
def getCurrentTimeMicros (now : LocalTime) : Bytes :=
  decimal now.year ++ lit "-" ++ padded 2 now.month ++ lit "-" ++ padded 2 now.day ++ lit " " ++
    padded 2 now.hour ++ lit ":" ++ padded 2 now.minute ++ lit ":" ++ padded 2 now.second ++
    lit "." ++ padded 6 now.micros

/-- The macro `LOG(level, message)`: behind the message stand the name of a source file, which has no
newline, and the time of the call. -/
structure LogCall.Logs (call : LogCall) (level : LogLevel) (message : Bytes) : Prop where
  level_eq : call.level = level
  message_eq : call.message = message
  file : lf ∉ call.file
  time : ∃ now, call.time = getCurrentTimeMicros now

theorem lf_notMem_decimal (n : ℕ) : lf ∉ decimal n := notMem_decimal rfl

theorem lf_notMem_padded (width n : ℕ) : lf ∉ padded width n := by
  have hzero : lf ≠ digit 0 := by decide
  simp [padded, List.mem_replicate, hzero, lf_notMem_decimal]

theorem lf_notMem_getCurrentTimeMicros (now : LocalTime) : lf ∉ getCurrentTimeMicros now := by
  have hminus : lf ∉ lit "-" := by decide
  have hspace : lf ∉ lit " " := by decide
  have hcolon : lf ∉ lit ":" := by decide
  have hdot : lf ∉ lit "." := by decide
  simp [getCurrentTimeMicros, lf_notMem_decimal, lf_notMem_padded, hminus, hspace, hcolon, hdot]

theorem lf_notMem_levelName (level : LogLevel) : lf ∉ level.levelName := by
  cases level <;> decide

/-- The record of a call has a newline just if the message has one. -/
theorem LogCall.Logs.lf_mem_logMsg_iff {call : LogCall} {level : LogLevel} {message : Bytes}
    (h : call.Logs level message) : lf ∈ call.logMsg ↔ lf ∈ message := by
  obtain ⟨now, htime⟩ := h.time
  have hopening : lf ∉ lit "[" := by decide
  have hbetween : lf ∉ lit "][" := by decide
  have hcolon : lf ∉ lit ":" := by decide
  have hclosing : lf ∉ lit "]" := by decide
  simp [LogCall.logMsg, htime, h.message_eq, h.file, hopening, hbetween, hcolon, hclosing,
    lf_notMem_levelName, lf_notMem_getCurrentTimeMicros, lf_notMem_decimal]

namespace AsyncLogger

/-! ## One record for each call -/

/-- The bytes of the file: `writeToFile` puts a newline behind every record. -/
def contents (logger : AsyncLogger) : Bytes := written lf (logger.file.map LogEntry.text)

/-- The calls of `log` among the steps of a run. -/
def calledBy (inputs : List LoggerInput) : List LogCall :=
  inputs.filterMap fun input ↦
    match input with
    | .log call => some call
    | _ => none

/-- The call of `log` that a step is, if it passes the level filter of the running logger. -/
def accepted (logger : AsyncLogger) : LoggerInput → List LogCall
  | .log call => if call.level.toNat < logger.level.toNat ∨ ¬ logger.running then [] else [call]
  | _ => []

/-- The calls that pass the filter in a run. -/
def acceptedBy : AsyncLogger → List LoggerInput → List LogCall
  | _, [] => []
  | logger, input :: inputs => logger.accepted input ++ acceptedBy (logger.step input) inputs

/-- The records that calls have made, before and behind the mutex. -/
def recorded (logger : AsyncLogger) : List Bytes :=
  logger.pushes.map (fun push ↦ push.entry.text) ++ logger.calls

variable {logger : AsyncLogger}

theorem acceptedBy_sublist (logger : AsyncLogger) (inputs : List LoggerInput) :
    (logger.acceptedBy inputs).Sublist (calledBy inputs) := by
  induction inputs generalizing logger with
  | nil => exact .slnil
  | cons input inputs ih =>
    unfold acceptedBy accepted calledBy
    cases input with
    | log call =>
      dsimp only
      split
      · exact (ih _).cons call
      · exact (ih _).cons_cons call
    | push index | writer timedOut | stop | setLevel level => exact ih _

theorem writeToFile_recorded (logger : AsyncLogger) (entry : LogEntry) :
    (logger.writeToFile entry).recorded = logger.recorded := by
  unfold writeToFile
  split <;> rfl

theorem writerStep_recorded (logger : AsyncLogger) (timedOut : Bool) :
    (logger.writerStep timedOut).recorded = logger.recorded := by
  unfold writerStep
  cases logger.writer with
  | writing =>
    dsimp only
    split
    · exact writeToFile_recorded _ _
    · rfl
  | locking | sleeping =>
    dsimp only
    split <;> rfl
  | testing | predicate | awake | swapping | done => rfl

theorem stopStep_recorded (logger : AsyncLogger) : logger.stopStep.recorded = logger.recorded := by
  unfold stopStep
  cases logger.stopper with
  | idle | joining =>
    dsimp only
    split <;> rfl
  | draining =>
    dsimp only
    split
    · exact writeToFile_recorded _ _
    · exact writeToFile_recorded _ _
    · rfl
  | returned => rfl

/-- A step makes the records of the call it accepts and no other. -/
theorem recorded_step (logger : AsyncLogger) (input : LoggerInput) :
    (logger.step input).recorded.Perm
      (logger.recorded ++ (logger.accepted input).map LogCall.logMsg) := by
  have hsame {logger' : AsyncLogger} (h : logger'.recorded = logger.recorded) :
      logger'.recorded.Perm (logger.recorded ++ ([] : List LogCall).map LogCall.logMsg) := by
    rw [h, List.map_nil, List.append_nil]
  cases input with
  | log call =>
    unfold step AsyncLogger.log accepted
    dsimp only
    by_cases hlevel : call.level.toNat < logger.level.toNat
    · rw [if_pos hlevel, if_pos (.inl hlevel)]
      exact hsame rfl
    · rw [if_neg hlevel]
      by_cases hrunning : ¬ logger.running
      · rw [if_pos hrunning, if_pos (.inr hrunning)]
        exact hsame rfl
      · rw [if_neg hrunning, if_neg (not_or.mpr ⟨hlevel, hrunning⟩)]
        simp [recorded]
  | push index =>
    change (logger.push index).recorded.Perm _
    unfold push
    split
    · exact hsame rfl
    · split
      · rename_i text htext
        obtain ⟨hindex, hget⟩ := List.getElem?_eq_some_iff.mp htext
        -- the record leaves the calls and comes to the end of the pushes
        have hpushed : recorded { logger.pushFront text with calls := logger.calls.eraseIdx index } =
            logger.pushes.map (fun push ↦ push.entry.text) ++
              (text :: logger.calls.eraseIdx index) := by
          simp [recorded, pushFront]
        have herase : (text :: logger.calls.eraseIdx index).Perm logger.calls :=
          hget ▸ List.getElem_cons_eraseIdx_perm hindex
        rw [hpushed]
        unfold accepted
        rw [List.map_nil, List.append_nil]
        exact herase.append_left _
      · exact hsame rfl
  | writer timedOut => exact hsame (logger.writerStep_recorded timedOut)
  | stop => exact hsame logger.stopStep_recorded
  | setLevel level => exact hsame rfl

/-- Every accepted call makes one record, whatever the other threads do. -/
theorem recorded_run (logger : AsyncLogger) (inputs : List LoggerInput) :
    (run step logger inputs).recorded.Perm
      (logger.recorded ++ (logger.acceptedBy inputs).map LogCall.logMsg) := by
  induction inputs generalizing logger with
  | nil => simp [acceptedBy]
  | cons input inputs ih =>
    rw [run_cons, acceptedBy, List.map_append]
    calc
      _ ~ (logger.step input).recorded ++
          ((logger.step input).acceptedBy inputs).map LogCall.logMsg := ih (logger.step input)
      _ ~ logger.recorded ++ (logger.accepted input).map LogCall.logMsg ++
          ((logger.step input).acceptedBy inputs).map LogCall.logMsg :=
        (logger.recorded_step input).append_right _
      _ ~ _ := .of_eq (List.append_assoc ..)

/-! ## One line for each record -/

/-- The log has one line for each call: the accepted calls make one record each, of which only overflow
is lost, and the file has one newline for each record that has been written and is cut into these
records at its newlines. -/
structure LineForEach (logger : AsyncLogger) (calls : List LogCall) : Prop where
  recorded : logger.recorded.Perm (calls.map LogCall.logMsg)
  kept : Thinning logger.Overflowed (logger.pushes.map LogPush.entry) logger.lines
  newlines : logger.contents.count lf = logger.file.length
  records : logger.contents.splitOn lf = logger.file.map LogEntry.text ++ [[]]

/-- Calls whose records have no newline have one line each. -/
theorem lineForEach_run (level : LogLevel) {maxQueueSize : ℕ} (hroom : 1 ≤ maxQueueSize)
    {inputs : List LoggerInput} (h : ∀ call ∈ calledBy inputs, lf ∉ call.logMsg) :
    (run step (init level maxQueueSize) inputs).LineForEach
      ((init level maxQueueSize).acceptedBy inputs) := by
  have hrecorded := recorded_run (init level maxQueueSize) inputs
  have hkept := (ordered_run level hroom inputs).kept
  have hfile : ∀ text ∈ (run step (init level maxQueueSize) inputs).file.map LogEntry.text,
      lf ∉ text := by
    intro text htext
    obtain ⟨entry, hentry, rfl⟩ := List.mem_map.mp htext
    have hline : entry ∈ (run step (init level maxQueueSize) inputs).lines :=
      List.mem_append_left _ (List.mem_append_left _ hentry)
    obtain ⟨push, hpush, rfl⟩ := List.mem_map.mp (hkept.sublist.subset hline)
    have hmade : push.entry.text ∈ (run step (init level maxQueueSize) inputs).recorded :=
      List.mem_append_left _ (List.mem_map_of_mem hpush)
    obtain ⟨call, hcall, htext⟩ := List.mem_map.mp (hrecorded.mem_iff.mp hmade)
    rw [← htext]
    exact h call ((acceptedBy_sublist _ inputs).subset hcall)
  refine ⟨hrecorded, hkept, ?_, splitOn_written hfile⟩
  rw [contents, (count_written_eq_length_iff _).mpr hfile, List.length_map]

/-! ## A quiet logger -/

/-- A running logger that lets every level pass and has nothing to do. -/
structure Quiet (logger : AsyncLogger) : Prop where
  level : logger.level = .debug
  running : logger.running = true
  frontBuffer : logger.frontBuffer = []
  backBuffer : logger.backBuffer = []
  room : 1 ≤ logger.maxQueueSize
  fileOpen : logger.fileOpen = true
  writer : logger.writer = .locking
  stopper : logger.stopper = .idle
  calls : logger.calls = []

/-- A call of `log`, and the round of the writer that puts its record into the file. -/
def writeOut (call : LogCall) : List LoggerInput :=
  .log call :: .push 0 :: List.replicate 7 (.writer false)

theorem quiet_init {maxQueueSize : ℕ} (hroom : 1 ≤ maxQueueSize) : (init .debug maxQueueSize).Quiet :=
  ⟨rfl, rfl, rfl, rfl, hroom, rfl, rfl, rfl, rfl⟩

/-- A quiet logger writes a call out and is quiet again. -/
theorem Quiet.run_writeOut (h : logger.Quiet) (call : LogCall) :
    (run step logger (writeOut call)).Quiet ∧ (run step logger (writeOut call)).file.map LogEntry.text =
      logger.file.map LogEntry.text ++ [call.logMsg] := by
  obtain ⟨hlevel, hrunning, hfront, hback, hroom, hopen, hwriter, hstopper, hcalls⟩ := h
  have hround : run step logger (writeOut call) =
      { logger with
        file := logger.file ++ [⟨logger.pushes.length, call.logMsg⟩]
        pushes := logger.pushes ++ [⟨⟨logger.pushes.length, call.logMsg⟩, []⟩] } := by
    obtain ⟨level, running, front, back, maxQueueSize, fileOpen, file, writer, stopper, calls,
      pushes⟩ := logger
    dsimp only at hlevel hrunning hfront hback hopen hwriter hstopper hcalls
    subst hlevel hrunning hfront hback hopen hwriter hstopper hcalls
    simp [writeOut, List.replicate, step, AsyncLogger.log, LogLevel.toNat, push, pushFront,
      writerLocks, stopLocks, writerStep, writeToFile]
  rw [hround]
  exact ⟨⟨hlevel, hrunning, hfront, hback, hroom, hopen, hwriter, hstopper, hcalls⟩, by simp⟩

/-- So the file of a quiet logger gets the records of any calls, one behind the other. -/
theorem Quiet.run_flatMap_writeOut (h : logger.Quiet) (calls : List LogCall) :
    (run step logger (calls.flatMap writeOut)).file.map LogEntry.text =
      logger.file.map LogEntry.text ++ calls.map LogCall.logMsg := by
  induction calls generalizing logger with
  | nil => simp
  | cons call calls ih =>
    obtain ⟨hquiet, hfile⟩ := h.run_writeOut call
    rw [List.flatMap_cons, run_append]
    calc
      _ = (run step logger (writeOut call)).file.map LogEntry.text ++ calls.map LogCall.logMsg :=
        ih hquiet
      _ = logger.file.map LogEntry.text ++ [call.logMsg] ++ calls.map LogCall.logMsg := by rw [hfile]
      _ = _ := List.append_assoc ..

theorem calledBy_flatMap_writeOut (calls : List LogCall) : calledBy (calls.flatMap writeOut) = calls := by
  induction calls with
  | nil => rfl
  | cons call calls ih =>
    have hround : calledBy (writeOut call) = [call] := rfl
    calc
      _ = calledBy (writeOut call) ++ calledBy (calls.flatMap writeOut) := List.filterMap_append
      _ = _ := by rw [hround, ih, List.singleton_append]

/-- In every run with these calls the log has one line for each, if and only if no record has a newline
of its own. -/
theorem lineForEach_iff (calls : List LogCall) :
    (∀ level maxQueueSize inputs, 1 ≤ maxQueueSize → (calledBy inputs).Perm calls →
      (run step (init level maxQueueSize) inputs).LineForEach
        ((init level maxQueueSize).acceptedBy inputs)) ↔ ∀ call ∈ calls, lf ∉ call.logMsg := by
  constructor
  · intro h
    have hline := (h .debug 1 (calls.flatMap writeOut) le_rfl
      (.of_eq (calledBy_flatMap_writeOut calls))).newlines
    have hfile : (run step (init .debug 1) (calls.flatMap writeOut)).file.map LogEntry.text =
        calls.map LogCall.logMsg := (quiet_init le_rfl).run_flatMap_writeOut calls
    rw [contents, ← List.length_map, count_written_eq_length_iff, hfile] at hline
    intro call hcall
    exact hline _ (List.mem_map_of_mem hcall)
  · intro h level maxQueueSize inputs hroom hcalls
    apply lineForEach_run level hroom
    intro call hcall
    exact h call (hcalls.mem_iff.mp hcall)

end AsyncLogger

end WebServer
