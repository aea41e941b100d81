import Mathlib.Algebra.BigOperators.Group.List.Basic
import Mathlib.Algebra.Ring.Nat
import WebServer.Foundation.Progress
import WebServer.Loop.Shutdown

/-!
# The end of the server

With room in the table for every loop, a signal ends the server whenever it arrives, also while loops are
still constructed: the main thread goes on to construct and start the rest, every thread leaves `loop()`
at the next look at `g_stop`, and every `epoll_wait` that does not return by itself is woken up. What a
thread may still have to do is to handle one batch.
-/

namespace WebServer

open Execution

/-- `MAXEPOLLEVENTS`. -/
def maxEpollEvents : ℕ := 4096

/-- How many steps the thread is from its end when `g_stop` is set. -/
def LoopThread.rank (thread : LoopThread) : ℕ :=
  match thread.position with
  | .unstarted => maxEpollEvents + 7
  | .waiting => maxEpollEvents + 6
  | .handling batch => batch.length + 5
  | .draining => if 0 < thread.wakeup then 4 else 3
  | .stopping => 2
  | .test => 1
  | .done => 0

def MainPosition.rank : MainPosition → ℕ
  | construct => 0
  | start => 1
  | add => 2
  | store => 3
  | claim => 4

def HandlerPosition.rank : HandlerPosition → ℕ
  | idle | returned => 0
  | broadcasting index => 2 * (wakeupCapacity - index) + 1

/-- A batch is not longer than `epoll_wait` makes it. -/
def ProcessInput.Bounded : ProcessInput → Prop
  | loop _ (.events batch) => batch.length ≤ maxEpollEvents
  | loop _ .failed | main | signal | handler => True

namespace LoopThread

variable {thread : LoopThread} {result : WaitResult}

/-- A thread can go on, if it waits because there is a wakeup for it. -/
def CanStep (thread : LoopThread) : Prop :=
  thread.InLoop ∧ (thread.position = .waiting → thread.registered = true ∧ 0 < thread.wakeup)

/-- The wait ends with a batch, or with none. -/
theorem rank_step_of_waiting (hwaiting : thread.position = .waiting)
    (hbounded : ∀ batch, result = .events batch → batch.length ≤ maxEpollEvents)
    (hwakeup : ∀ batch, result = .events batch → .wakeup ∈ batch →
      thread.registered = true ∧ 0 < thread.wakeup) :
    (thread.step true result).rank < thread.rank := by
  have hrank : thread.rank = maxEpollEvents + 6 := by simp [rank, hwaiting]
  simp only [hrank, step, hwaiting]
  cases result with
  | failed =>
    simp [rank]
  | events batch =>
    have hlength := hbounded batch rfl
    simp only
    rw [if_pos (hwakeup batch rfl)]
    simp only [rank]
    omega

/-- A step of a thread that can go on brings it nearer to its end. -/
theorem rank_step_lt (hcan : thread.CanStep)
    (hbounded : ∀ batch, result = .events batch → batch.length ≤ maxEpollEvents) :
    (thread.step true result).rank < thread.rank := by
  obtain ⟨⟨hstarted, hrunning⟩, hwakeup⟩ := hcan
  cases hposition : thread.position with
  | unstarted => exact absurd hposition hstarted
  | test => simp [step, hposition, rank]
  | waiting =>
    exact rank_step_of_waiting hposition hbounded fun _ _ _ ↦ hwakeup hposition
  | handling batch =>
    cases batch with
    | nil => simp [step, hposition, rank]
    | cons entry batch =>
      cases entry with
      | other => simp [step, hposition, rank]
      | wakeup =>
        simp only [step, hposition, rank, List.length_cons]
        split <;> omega
  | draining =>
    by_cases hcount : 0 < thread.wakeup <;> simp [step, hposition, hcount, rank]
  | stopping => simp [step, hposition, rank]
  | done => exact absurd hposition hrunning

theorem step_eq_or_rank_lt
    (hbounded : ∀ batch, result = .events batch → batch.length ≤ maxEpollEvents) :
    thread.step true result = thread ∨ (thread.step true result).rank < thread.rank := by
  by_cases hinLoop : thread.InLoop
  · by_cases hwaiting : thread.position = .waiting
    · by_cases hwakeup : ∀ batch, result = .events batch → .wakeup ∈ batch →
          thread.registered = true ∧ 0 < thread.wakeup
      · exact .inr (rank_step_of_waiting hwaiting hbounded hwakeup)
      · push Not at hwakeup
        obtain ⟨batch, rfl, hmem, hnone⟩ := hwakeup
        apply Or.inl
        simp only [step, hwaiting]
        exact if_neg fun himp ↦ absurd (himp hmem).2 (Nat.not_lt.mpr (hnone (himp hmem).1))
    · exact .inr (rank_step_lt ⟨hinLoop, fun h ↦ absurd h hwaiting⟩ hbounded)
  · apply Or.inl
    rw [InLoop, not_and_or, not_not, not_not] at hinLoop
    obtain hposition | hposition := hinLoop
    · simp only [step, hposition]
    · simp only [step, hposition]

/-- A write to the eventfd of a thread. -/
def wake (thread : LoopThread) : LoopThread := { thread with wakeup := thread.wakeup + 1 }

theorem rank_wake_le (thread : LoopThread) : thread.wake.rank ≤ thread.rank + 1 := by
  unfold rank wake
  cases thread.position with
  | draining =>
    dsimp only
    split <;> split <;> omega
  | unstarted | test | waiting | handling | stopping | done => exact Nat.le_succ _

end LoopThread

/-! ## The measure -/

/-- The rank of one loop of many. -/
theorem sum_rank_modify {loops : List LoopThread} {index : ℕ} {thread : LoopThread}
    (hget : loops[index]? = some thread) (f : LoopThread → LoopThread) :
    ((loops.modify index f).map LoopThread.rank).sum + thread.rank =
      (loops.map LoopThread.rank).sum + (f thread).rank := by
  induction loops generalizing index with
  | nil => exact absurd hget (by simp)
  | cons first loops ih =>
    cases index with
    | zero =>
      obtain rfl : first = thread := by simpa using hget
      simp only [List.modify_zero_cons, List.map_cons, List.sum_cons]
      omega
    | succ index =>
      have htail : loops[index]? = some thread := by simpa using hget
      have hrest := ih htail
      simp only [List.modify_succ_cons, List.map_cons, List.sum_cons]
      omega

namespace ServerProcess

/-- What is left to do when the signal has arrived: loops to construct, steps of the main thread with the
last one, entries of the table, and steps of the threads. -/
def exitMeasure (loopCount : ℕ) (process : ServerProcess) : ℕ :=
  (loopCount - process.loops.length) * (maxEpollEvents + 12) + process.main.rank +
    process.handler.rank + (process.loops.map LoopThread.rank).sum

/-- The loop under construction is the only one whose thread is not started. -/
def Started (process : ServerProcess) : Prop :=
  ∀ (index : ℕ) (thread : LoopThread), process.loops[index]? = some thread →
    thread.position = .unstarted → process.main ≠ .construct ∧ index = process.last

variable {loopCount : ℕ} {process process' : ServerProcess}

theorem started_new : new.Started := fun _ _ hget ↦ absurd hget (by simp [new])

/-- A change of one loop that does not start it. -/
theorem Started.modify (h : process.Started) {index : ℕ} {f : LoopThread → LoopThread}
    (hloops : process'.loops = process.loops.modify index f)
    (hmain : process.main ≠ .construct → process'.main ≠ .construct)
    (hposition : ∀ thread, (f thread).position = .unstarted → thread.position = .unstarted) :
    process'.Started := by
  intro other thread hget hunstarted
  have hlast : process'.last = process.last := by
    rw [last, last, hloops, List.length_modify]
  have hmodified : (process.modifyLoop index f).loops[other]? = some thread := by
    rw [modifyLoop, ← hloops]
    exact hget
  obtain ⟨old, hold, rfl⟩ := of_getElem?_modifyLoop hmodified
  have hbefore : old.position = .unstarted := by
    split at hunstarted
    · exact hposition old hunstarted
    · exact hunstarted
  obtain ⟨hconstructing, hother⟩ := h other old hold hbefore
  exact ⟨hmain hconstructing, hother.trans hlast.symm⟩

theorem Started.mainStep (h : process.Started) : (process.mainStep loopCount).Started := by
  unfold ServerProcess.mainStep
  cases hmain : process.main with
  | construct =>
    dsimp only
    split
    · intro index thread hget hunstarted
      obtain hold | ⟨rfl, -⟩ := of_getElem?_concat hget
      · exact absurd hmain (h index thread hold hunstarted).1
      · simp [last]
    · exact h
  | claim =>
    dsimp only
    split
    · exact fun index thread hget hunstarted ↦ ⟨by simp, (h index thread hget hunstarted).2⟩
    · exact fun index thread hget hunstarted ↦ ⟨by simp, (h index thread hget hunstarted).2⟩
  | store => exact fun index thread hget hunstarted ↦ ⟨by simp, (h index thread hget hunstarted).2⟩
  | add =>
    exact h.modify (f := fun thread ↦ { thread with registered := true }) rfl (fun _ ↦ by simp)
      fun _ hunstarted ↦ hunstarted
  | start =>
    intro index thread hget hunstarted
    obtain ⟨old, hold, rfl⟩ := of_getElem?_modifyLoop hget
    split at hunstarted
    · exact absurd hunstarted (by simp)
    · rename_i hother
      exact absurd (h index old hold hunstarted).2.symm hother

theorem Started.step (h : process.Started) (input : ProcessInput) :
    (process.step loopCount input).Started := by
  cases input with
  | main => exact h.mainStep
  | loop index result =>
    exact h.modify rfl id fun thread hunstarted ↦
      (LoopThread.step_unstarted_iff process.stop result thread).mp hunstarted
  | signal =>
    unfold ServerProcess.step
    dsimp only
    split <;> exact h
  | handler =>
    unfold ServerProcess.step ServerProcess.handlerStep
    dsimp only
    split
    · split
      · exact h.modify rfl id fun thread hunstarted ↦ hunstarted
      · exact h
      · exact h
    · exact h

/-! ## Steps of the parties -/

/-- The signal has arrived. -/
structure Ending (loopCount : ℕ) (process : ServerProcess) : Prop extends Consistent loopCount process where
  signalled : process.handler ≠ .idle
  started : process.Started

theorem Ending.stop (h : process.Ending loopCount) : process.stop = true := h.stopped h.signalled

theorem handler_step_ne_idle (h : process.handler ≠ .idle) (input : ProcessInput) :
    (process.step loopCount input).handler ≠ .idle := by
  cases input with
  | main =>
    have hsame : (process.mainStep loopCount).handler = process.handler := by
      unfold ServerProcess.mainStep
      split
      · split <;> rfl
      · split <;> rfl
      · rfl
      · rfl
      · rfl
    exact hsame ▸ h
  | loop index result => exact h
  | signal =>
    unfold ServerProcess.step
    dsimp only
    split
    · simp
    · exact h
  | handler =>
    unfold ServerProcess.step ServerProcess.handlerStep
    dsimp only
    split
    · split <;> simp
    · exact h

theorem Ending.step (h : process.Ending loopCount) (hcount : loopCount ≤ wakeupCapacity)
    (input : ProcessInput) : (process.step loopCount input).Ending loopCount :=
  ⟨h.toConsistent.step hcount input, handler_step_ne_idle h.signalled input, h.started.step input⟩

/-- The main thread can go on. -/
def CanConstruct (loopCount : ℕ) (process : ServerProcess) : Prop :=
  process.main = .construct → process.loops.length < loopCount

/-- The loop under construction, whose thread is not started. -/
theorem Ending.exists_last (h : process.Ending loopCount) (hmain : process.main ≠ .construct) :
    ∃ thread, process.loops[process.last]? = some thread ∧ thread.position = .unstarted := by
  have hpos := h.constructing hmain
  have hlt : process.last < process.loops.length := by
    unfold last
    omega
  have hget := List.getElem?_eq_getElem hlt
  exact ⟨_, hget, h.unstarted hmain _ hget⟩

theorem Ending.mainStep_lt (h : process.Ending loopCount) (hcan : process.CanConstruct loopCount) :
    (process.mainStep loopCount).exitMeasure loopCount < process.exitMeasure loopCount := by
  unfold ServerProcess.mainStep
  cases hmain : process.main with
  | construct =>
    have hlt := hcan hmain
    obtain ⟨rest, hrest⟩ := Nat.exists_eq_add_of_lt hlt
    have hbefore : loopCount - process.loops.length = rest + 1 := by omega
    have hafter : loopCount - (process.loops.length + 1) = rest := by omega
    dsimp only
    rw [if_pos hlt]
    simp only [exitMeasure, hmain, List.length_append, List.length_singleton, hbefore, hafter,
      List.map_append, List.map_singleton, List.sum_append, List.sum_singleton, Nat.succ_mul,
      MainPosition.rank, LoopThread.rank, LoopThread.opened]
    omega
  | claim =>
    dsimp only
    split
    · simp only [exitMeasure, hmain, MainPosition.rank]
      omega
    · simp only [exitMeasure, hmain, MainPosition.rank]
      omega
  | store =>
    simp only [exitMeasure, hmain, MainPosition.rank]
    omega
  | add =>
    obtain ⟨thread, hget, -⟩ := h.exists_last (by simp [hmain])
    have hsum := sum_rank_modify hget fun thread ↦ { thread with registered := true }
    have hsame : LoopThread.rank { thread with registered := true } = thread.rank := rfl
    simp only [exitMeasure, hmain, MainPosition.rank, modifyLoop, List.length_modify]
    omega
  | start =>
    obtain ⟨thread, hget, hunstarted⟩ := h.exists_last (by simp [hmain])
    have hsum := sum_rank_modify hget fun thread ↦ { thread with position := .test }
    have hbefore : thread.rank = maxEpollEvents + 7 := by simp [LoopThread.rank, hunstarted]
    have hafter : LoopThread.rank { thread with position := .test } = 1 := rfl
    simp only [exitMeasure, hmain, MainPosition.rank, modifyLoop, List.length_modify]
    omega

theorem mainStep_of_not_canConstruct (hcan : ¬ process.CanConstruct loopCount) :
    process.mainStep loopCount = process := by
  rw [CanConstruct, Classical.not_imp] at hcan
  unfold ServerProcess.mainStep
  rw [hcan.1]
  exact if_neg hcan.2

/-- A step of one thread. -/
theorem loopStep_measure (loopCount : ℕ) (hstop : process.stop = true) {index : ℕ} {thread : LoopThread}
    (hget : process.loops[index]? = some thread) (result : WaitResult) :
    (process.step loopCount (.loop index result)).exitMeasure loopCount + thread.rank =
      process.exitMeasure loopCount + (thread.step true result).rank := by
  have hsum := sum_rank_modify hget (LoopThread.step process.stop result)
  rw [hstop] at hsum
  simp only [step, exitMeasure, modifyLoop, List.length_modify, hstop]
  omega

theorem loopStep_of_same {index : ℕ} {thread : LoopThread} {result : WaitResult}
    (hget : process.loops[index]? = some thread) (hsame : thread.step process.stop result = thread) :
    process.step loopCount (.loop index result) = process := by
  have hloops : process.loops.modify index (LoopThread.step process.stop result) = process.loops := by
    apply List.ext_getElem?
    intro other
    rw [List.getElem?_modify]
    split
    · rename_i heq
      rw [← heq, hget]
      exact congrArg some hsame
    · simp
  rw [step, modifyLoop, hloops]

theorem handlerStep_lt (htable : process.table.length ≤ wakeupCapacity) {next : ℕ}
    (hhandler : process.handler = .broadcasting next) :
    process.handlerStep.exitMeasure loopCount < process.exitMeasure loopCount := by
  unfold ServerProcess.handlerStep
  rw [hhandler]
  dsimp only
  cases hentry : process.table[next]? with
  | none =>
    simp only [exitMeasure, hhandler, HandlerPosition.rank]
    omega
  | some entry =>
    have hnext := (List.getElem?_eq_some_iff.mp hentry).1
    cases entry with
    | none =>
      simp only [exitMeasure, hhandler, HandlerPosition.rank]
      omega
    | some loop =>
      have hsum : ((process.loops.modify loop LoopThread.wake).map LoopThread.rank).sum ≤
          (process.loops.map LoopThread.rank).sum + 1 := by
        cases hget : process.loops[loop]? with
        | none =>
          rw [List.modify_eq_self (List.getElem?_eq_none_iff.mp hget)]
          exact Nat.le_succ _
        | some thread =>
          have hsum := sum_rank_modify hget LoopThread.wake
          have hwake := thread.rank_wake_le
          omega
      change exitMeasure loopCount { process.modifyLoop loop LoopThread.wake with
        handler := .broadcasting (next + 1) } < _
      simp only [exitMeasure, hhandler, HandlerPosition.rank, modifyLoop, List.length_modify]
      omega

theorem Ending.table_le (h : process.Ending loopCount) (hcount : loopCount ≤ wakeupCapacity) :
    process.table.length ≤ wakeupCapacity := by
  have hle := h.length_le
  unfold wakeupCapacity at hcount ⊢
  rw [h.table_eq, expectedTable]
  split <;> simp [last] <;> omega

/-- A step brings the end nearer, or changes nothing. -/
theorem Ending.step_eq_or_lt (h : process.Ending loopCount) (hcount : loopCount ≤ wakeupCapacity)
    {input : ProcessInput} (hbounded : input.Bounded) :
    process.step loopCount input = process ∨
      (process.step loopCount input).exitMeasure loopCount < process.exitMeasure loopCount := by
  cases input with
  | main =>
    by_cases hcan : process.CanConstruct loopCount
    · exact .inr (h.mainStep_lt hcan)
    · exact .inl (mainStep_of_not_canConstruct hcan)
  | loop index result =>
    cases hget : process.loops[index]? with
    | none =>
      apply Or.inl
      rw [ServerProcess.step, modifyLoop, List.modify_eq_self (List.getElem?_eq_none_iff.mp hget)]
    | some thread =>
      have hmeasure := loopStep_measure loopCount h.stop hget result
      have hbatch : ∀ batch, result = .events batch → batch.length ≤ maxEpollEvents := by
        rintro batch rfl
        exact hbounded
      obtain hsame | hlt := thread.step_eq_or_rank_lt hbatch
      · rw [← h.stop] at hsame
        exact .inl (loopStep_of_same hget hsame)
      · apply Or.inr
        omega
  | signal =>
    apply Or.inl
    unfold ServerProcess.step
    dsimp only
    split
    · rename_i hidle
      exact absurd hidle h.signalled
    · rfl
  | handler =>
    cases hhandler : process.handler with
    | idle => exact absurd hhandler h.signalled
    | broadcasting next => exact .inr (handlerStep_lt (h.table_le hcount) hhandler)
    | returned =>
      apply Or.inl
      unfold ServerProcess.step ServerProcess.handlerStep
      rw [hhandler]

/-! ## The end -/

/-- The threads of the process, and the signal handler. -/
inductive ExitParty (loopCount : ℕ) where
  | main
  | handler
  | loop (index : Fin loopCount)

def ExitParty.Moves : ExitParty loopCount → ProcessInput → Prop
  | main, input => input = .main
  | handler, input => input = .handler
  | loop index, input => ∃ result, input = .loop index result

def ExitParty.Enabled : ExitParty loopCount → ServerProcess → Prop
  | main, process => process.CanConstruct loopCount
  | handler, process => ∃ next, process.handler = .broadcasting next
  | loop index, process => ∃ thread, process.loops[index.val]? = some thread ∧ thread.CanStep

/-- All loops are constructed and all threads have left `loop()`, so that the main thread can join them. -/
structure Joined (loopCount : ℕ) (process : ServerProcess) : Prop where
  constructed : ¬ process.CanConstruct loopCount
  length : process.loops.length = loopCount
  done : ∀ thread ∈ process.loops, thread.position = .done

theorem Joined.step (h : process.Joined loopCount) (input : ProcessInput) :
    (process.step loopCount input).Joined loopCount := by
  have hmodify {process' : ServerProcess} {index : ℕ} {f : LoopThread → LoopThread}
      (hloops : process'.loops = process.loops.modify index f) (hmain : process'.main = process.main)
      (hf : ∀ thread : LoopThread, thread.position = .done → (f thread).position = .done) :
      process'.Joined loopCount := by
    have hlength : process'.loops.length = process.loops.length := by
      rw [hloops, List.length_modify]
    refine ⟨?_, hlength.trans h.length, ?_⟩
    · rw [CanConstruct, hmain, hlength]
      exact h.constructed
    · intro thread hmem
      obtain ⟨other, hget⟩ := List.mem_iff_getElem?.mp hmem
      have hmodified : (process.modifyLoop index f).loops[other]? = some thread := by
        rw [modifyLoop, ← hloops]
        exact hget
      obtain ⟨old, hold, rfl⟩ := of_getElem?_modifyLoop hmodified
      have hdone := h.done old (List.mem_of_getElem? hold)
      split
      · exact hf old hdone
      · exact hdone
  cases input with
  | main =>
    rw [ServerProcess.step, mainStep_of_not_canConstruct h.constructed]
    exact h
  | loop index result =>
    have hloops : (process.step loopCount (.loop index result)).loops =
        process.loops.modify index (LoopThread.step process.stop result) := rfl
    apply hmodify hloops rfl
    intro thread hdone
    simp [LoopThread.step, hdone]
  | signal =>
    unfold ServerProcess.step
    dsimp only
    split <;> exact ⟨h.constructed, h.length, h.done⟩
  | handler =>
    unfold ServerProcess.step ServerProcess.handlerStep
    dsimp only
    split
    · split
      · exact hmodify rfl rfl fun _ hdone ↦ hdone
      · exact ⟨h.constructed, h.length, h.done⟩
      · exact ⟨h.constructed, h.length, h.done⟩
    · exact h

/-- While the server has not ended, something can go on: nothing waits for ever. -/
theorem Ending.exists_enabled (h : process.Ending loopCount) (hjoined : ¬ process.Joined loopCount) :
    ∃ party : ExitParty loopCount, party.Enabled process := by
  by_cases hcan : process.CanConstruct loopCount
  · exact ⟨.main, hcan⟩
  cases hhandler : process.handler with
  | idle => exact absurd hhandler h.signalled
  | broadcasting next => exact ⟨.handler, next, hhandler⟩
  | returned =>
    have hmain : process.main = .construct ∧ ¬ process.loops.length < loopCount := by
      rw [CanConstruct, Classical.not_imp] at hcan
      exact hcan
    have hlength : process.loops.length = loopCount := le_antisymm h.length_le (not_lt.mp hmain.2)
    have hrunning : ∃ thread ∈ process.loops, thread.position ≠ .done := by
      by_contra hnone
      push Not at hnone
      exact hjoined ⟨hcan, hlength, hnone⟩
    obtain ⟨thread, hmem, hdone⟩ := hrunning
    obtain ⟨index, hget⟩ := List.mem_iff_getElem?.mp hmem
    have hlt : index < loopCount := hlength ▸ (List.getElem?_eq_some_iff.mp hget).1
    have hstarted : thread.position ≠ .unstarted := fun hunstarted ↦
      (h.started index thread hget hunstarted).1 hmain.1
    -- the handler has come past the entry of every thread that waits
    have htold : thread.position = .waiting → thread.registered = true ∧ 0 < thread.wakeup := by
      intro hwaiting
      apply And.intro (h.registered index thread hget hstarted)
      apply h.told index thread hget hwaiting
      rw [Passed, hhandler]
      trivial
    exact ⟨.loop ⟨index, hlt⟩, thread, hget, ⟨hstarted, hdone⟩, htold⟩

/-- Every schedule in which all threads go on ends the server. -/
def exitProgress (hcount : loopCount ≤ wakeupCapacity) :
    Progress (step loopCount) ProcessInput.Bounded (ExitParty loopCount) where
  invariant := Ending loopCount
  finished := Joined loopCount
  measure := exitMeasure loopCount
  moves := ExitParty.Moves
  enabled := ExitParty.Enabled
  kept _ input h _ := h.step hcount input
  stays _ input _ _ hjoined := hjoined.step input
  falls process input h hbounded := by
    obtain hsame | hlt := h.step_eq_or_lt hcount hbounded
    · rw [hsame]
      exact .inl le_rfl
    · exact .inl hlt.le
  live _ h hjoined := h.exists_enabled hjoined
  fires process input party h hbounded _ henabled hmoves := by
    apply Or.inl
    cases party with
    | main =>
      cases hmoves
      exact h.mainStep_lt henabled
    | handler =>
      cases hmoves
      obtain ⟨next, hhandler⟩ := henabled
      exact handlerStep_lt (h.table_le hcount) hhandler
    | loop index =>
      obtain ⟨result, rfl⟩ := hmoves
      obtain ⟨thread, hget, hcan⟩ := henabled
      have hmeasure := loopStep_measure loopCount h.stop hget result
      have hbatch : ∀ batch, result = .events batch → batch.length ≤ maxEpollEvents := by
        rintro batch rfl
        exact hbounded
      have hlt := LoopThread.rank_step_lt hcan hbatch
      omega
  waits process input party h hbounded _ henabled := by
    obtain hsame | hlt := h.step_eq_or_lt hcount hbounded
    · rw [hsame]
      exact .inl henabled
    · exact .inr (.inl hlt)

/-- A signal ends the server, at whatever moment it arrives: with more rounds than there is left to do,
all loops are constructed and all their threads have left `loop()`. -/
theorem signal_ends_server {loopCount : ℕ} (hcount : loopCount ≤ wakeupCapacity)
    (before : List ProcessInput) (rounds : List (List ProcessInput))
    (hsignalled : (run (step loopCount) new before).handler ≠ .idle)
    (hbounded : ∀ round ∈ rounds, ∀ input ∈ round, input.Bounded)
    (hfair : ∀ round ∈ rounds, .main ∈ round ∧ .handler ∈ round ∧
      ∀ index < loopCount, ∃ result, .loop index result ∈ round)
    (hlength : (run (step loopCount) new before).exitMeasure loopCount < rounds.length) :
    (run (step loopCount) new (before ++ rounds.flatten)).Joined loopCount := by
  have hstep (process : ServerProcess) (input : ProcessInput)
      (h : process.Consistent loopCount ∧ process.Started) :
      (process.step loopCount input).Consistent loopCount ∧ (process.step loopCount input).Started :=
    ⟨h.1.step hcount input, h.2.step input⟩
  obtain ⟨hconsistent, hstarted⟩ :=
    run_invariant_of_forall hstep ⟨consistent_new loopCount, started_new⟩ before
  have hmoves : ∀ round ∈ rounds, ∀ party : ExitParty loopCount,
      ∃ input ∈ round, party.Moves input := by
    intro round hmem party
    obtain ⟨hmain, hhandler, hloop⟩ := hfair round hmem
    cases party with
    | main => exact ⟨_, hmain, rfl⟩
    | handler => exact ⟨_, hhandler, rfl⟩
    | loop index =>
      obtain ⟨result, hresult⟩ := hloop index.val index.isLt
      exact ⟨_, hresult, result, rfl⟩
  rw [run_append]
  exact (exitProgress hcount).finished_of_rounds ⟨hconsistent, hsignalled, hstarted⟩ hbounded hmoves
    hlength

/-- One loop is constructed and waits, and the signal arrives. -/
def waitingServer : List ProcessInput :=
  [.main, .main, .main, .main, .main, .loop 0 .failed, .signal]

theorem signal_ends_server_waiting :
    (run (step 1) new (waitingServer ++
      (List.replicate 5000 [.main, .handler, .loop 0 (.events [.wakeup])]).flatten)).Joined 1 := by
  apply signal_ends_server (by decide)
  · decide
  · intro round hmem
    rw [List.eq_of_mem_replicate hmem]
    simp [ProcessInput.Bounded, maxEpollEvents]
  · intro round hmem
    rw [List.eq_of_mem_replicate hmem]
    simp
  · rw [List.length_replicate]
    decide +kernel

end ServerProcess

end WebServer
