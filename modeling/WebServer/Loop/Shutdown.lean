import Mathlib.Data.List.Basic
import WebServer.Foundation.Execution

/-!
# Shutting down all loops

The main thread constructs the loops one after the other and starts a thread for each. The signal
handler sets `g_stop` and writes to every eventfd of the broadcast table. Main thread, loop threads and
handler take their steps in any order; a step that is not possible changes nothing.

The table has room for 64 descriptors. A loop behind them is not told, and if it waits for events when
the signal arrives, it goes on waiting.
-/

namespace WebServer

open Execution

/-! ## Loop threads -/

/-- An entry of a batch of `epoll_wait`: the wakeup descriptor of the loop, or any other one. -/
inductive BatchEntry where
  | wakeup
  | other
  deriving DecidableEq

/-- Where a loop thread is: not started yet, before the condition of the loop, between the condition and
the return of `epoll_wait`, with a rest of the batch, in the loop that empties the eventfd, behind it,
or out of `loop()`. -/
inductive LoopPosition where
  | unstarted
  | test
  | waiting
  | handling (batch : List BatchEntry)
  | draining
  | stopping
  | done
  deriving DecidableEq

/-- What `epoll_wait` returns. -/
inductive WaitResult where
  | failed
  | events (batch : List BatchEntry)
  deriving DecidableEq

/-- A loop with its thread; `wakeup` is the count of the eventfd, and `registered` says that `_epfd` has
it. -/
structure LoopThread where
  wakeup : ℕ
  registered : Bool
  running : Bool
  position : LoopPosition
  deriving DecidableEq

namespace LoopThread

/-- A loop whose eventfd has just been made. -/
def opened : LoopThread := ⟨0, false, true, .unstarted⟩

/-- A step of the thread in `EventLoop::loop`; `epoll_wait` reports the wakeup descriptor only if it is
registered and has been written to. -/
def step (stop : Bool) (result : WaitResult) (thread : LoopThread) : LoopThread :=
  match thread.position with
  | .unstarted | .done => thread
  | .test => { thread with position := if thread.running ∧ ¬ stop then .waiting else .done }
  | .waiting =>
    match result with
    | .failed => { thread with position := .test }
    | .events batch =>
      if .wakeup ∈ batch → thread.registered ∧ 0 < thread.wakeup then
        { thread with position := .handling batch }
      else thread
  | .handling [] => { thread with position := .test }
  | .handling (.other :: batch) => { thread with position := .handling batch }
  | .handling (.wakeup :: _) => { thread with position := .draining }
  | .draining =>
    if 0 < thread.wakeup then { thread with wakeup := 0 } else { thread with position := .stopping }
  | .stopping => { thread with running := false, position := .test }

/-- The thread is in `loop()`. -/
def InLoop (thread : LoopThread) : Prop :=
  thread.position ≠ .unstarted ∧ thread.position ≠ .done

instance (thread : LoopThread) : Decidable thread.InLoop := inferInstanceAs (Decidable (_ ∧ _))

/-- The thread has a wakeup to come, or has been stopped, or will look at `g_stop` before it waits. -/
def Alerted (thread : LoopThread) : Prop :=
  (thread.registered = true ∧ 0 < thread.wakeup) ∨ thread.running = false ∨
    thread.position ≠ .waiting

instance (thread : LoopThread) : Decidable thread.Alerted :=
  inferInstanceAs (Decidable (_ ∨ _ ∨ _))

variable (stop : Bool) (result : WaitResult) (thread : LoopThread)

@[simp]
theorem step_registered : (thread.step stop result).registered = thread.registered := by
  fun_cases LoopThread.step stop result thread <;> rfl

theorem step_unstarted_iff :
    (thread.step stop result).position = .unstarted ↔ thread.position = .unstarted := by
  fun_cases LoopThread.step stop result thread <;> simp_all
  split <;> simp

/-- A thread gets to wait only when it sees `g_stop` unset, and stays there unchanged. -/
theorem of_step_waiting (h : (thread.step stop result).position = .waiting) :
    (thread.position = .waiting ∧ thread.step stop result = thread) ∨
      (thread.position = .test ∧ stop = false) := by
  revert h
  fun_cases LoopThread.step stop result thread <;> simp_all

end LoopThread

/-! ## The process -/

/-- `g_loopWakeupFds` has room for 64 descriptors. -/
def wakeupCapacity : ℕ := 64

/-- The next thing the main thread does: construct a loop, take a place in the table, write the
descriptor into it, add the descriptor to `_epfd`, or start the thread. -/
inductive MainPosition where
  | construct
  | claim
  | store
  | add
  | start
  deriving DecidableEq

/-- Where the signal handler is; `index` is the entry of the table it comes to next. -/
inductive HandlerPosition where
  | idle
  | broadcasting (index : ℕ)
  | returned
  deriving DecidableEq

/-- `table` are the first `g_loopWakeupCount` entries of `g_loopWakeupFds`; an entry that has not been
written to names no loop. -/
structure ServerProcess where
  loops : List LoopThread
  main : MainPosition
  table : List (Option ℕ)
  stop : Bool
  handler : HandlerPosition
  deriving DecidableEq

inductive ProcessInput where
  | main
  | loop (index : ℕ) (result : WaitResult)
  | signal
  | handler
  deriving DecidableEq

namespace ServerProcess

def new : ServerProcess := ⟨[], .construct, [], false, .idle⟩

/-- The index of the loop under construction. -/
def last (process : ServerProcess) : ℕ := process.loops.length - 1

def modifyLoop (process : ServerProcess) (index : ℕ) (f : LoopThread → LoopThread) :
    ServerProcess :=
  { process with loops := process.loops.modify index f }

/-- A step of `TcpServer::run` with `loopCount` loops; behind the last one it joins the threads. -/
def mainStep (loopCount : ℕ) (process : ServerProcess) : ServerProcess :=
  match process.main with
  | .construct =>
    if process.loops.length < loopCount then
      { process with loops := process.loops ++ [.opened], main := .claim }
    else process
  | .claim =>
    if process.table.length < wakeupCapacity then
      { process with table := process.table ++ [none], main := .store }
    else { process with main := .add }
  | .store =>
    { process with
      table := process.table.set (process.table.length - 1) (some process.last)
      main := .add }
  | .add =>
    { process.modifyLoop process.last fun thread ↦ { thread with registered := true } with
      main := .start }
  | .start =>
    { process.modifyLoop process.last fun thread ↦ { thread with position := .test } with
      main := .construct }

/-- A step of the rest of `signalHandler`, which has set `g_stop`. -/
def handlerStep (process : ServerProcess) : ServerProcess :=
  match process.handler with
  | .broadcasting index =>
    match process.table[index]? with
    | some (some loop) =>
      { process.modifyLoop loop fun thread ↦ { thread with wakeup := thread.wakeup + 1 } with
        handler := .broadcasting (index + 1) }
    | some none => { process with handler := .broadcasting (index + 1) }
    | none => { process with handler := .returned }
  | _ => process

def step (loopCount : ℕ) (process : ServerProcess) : ProcessInput → ServerProcess
  | .main => process.mainStep loopCount
  | .loop index result => process.modifyLoop index (LoopThread.step process.stop result)
  | .signal =>
    match process.handler with
    | .idle => { process with stop := true, handler := .broadcasting 0 }
    | _ => process
  | .handler => process.handlerStep

/-- When the handler has returned, every thread in `loop()` is alerted. -/
def AllAlerted (process : ServerProcess) : Prop :=
  process.handler = .returned → ∀ thread ∈ process.loops, thread.InLoop → thread.Alerted

instance (process : ServerProcess) : Decidable process.AllAlerted :=
  inferInstanceAs (Decidable (_ → _))

/-! ## The invariant -/

/-- The entries of the table, with as many loops as there are. -/
def expectedTable (process : ServerProcess) : List (Option ℕ) :=
  match process.main with
  | .claim => (List.range process.last).map some
  | .store => (List.range process.last).map some ++ [none]
  | .construct | .add | .start => (List.range process.loops.length).map some

/-- The handler has come past an entry of the table. -/
def Passed (process : ServerProcess) (index : ℕ) : Prop :=
  match process.handler with
  | .idle => False
  | .broadcasting next => index < next
  | .returned => True

/-- Every loop gets its entry in the table before its thread is started, and a thread that waits has
been told as soon as the handler has come past its entry. -/
structure Consistent (loopCount : ℕ) (process : ServerProcess) : Prop where
  length_le : process.loops.length ≤ loopCount
  table_eq : process.table = process.expectedTable
  constructing : process.main ≠ .construct → 0 < process.loops.length
  unstarted : process.main ≠ .construct → ∀ thread : LoopThread, process.loops[process.last]? = some thread →
    thread.position = .unstarted
  added : process.main = .start → ∀ thread : LoopThread, process.loops[process.last]? = some thread →
    thread.registered = true
  registered : ∀ (index : ℕ) (thread : LoopThread), process.loops[index]? = some thread →
    thread.position ≠ .unstarted → thread.registered = true
  stopped : process.handler ≠ .idle → process.stop = true
  told : ∀ (index : ℕ) (thread : LoopThread), process.loops[index]? = some thread →
    thread.position = .waiting → process.Passed index → 0 < thread.wakeup

variable {loopCount : ℕ} {process : ServerProcess} {index : ℕ} {thread : LoopThread}

theorem consistent_new (loopCount : ℕ) : new.Consistent loopCount where
  length_le := Nat.zero_le _
  table_eq := rfl
  constructing h := absurd rfl h
  unstarted h := absurd rfl h
  added h := absurd h (by decide)
  registered index thread h := absurd h (by simp [new])
  stopped h := absurd rfl h
  told index thread h := absurd h (by simp [new])

/-- A loop behind a change of one loop. -/
theorem of_getElem?_modifyLoop {changed : ℕ} {f : LoopThread → LoopThread}
    (h : (process.modifyLoop changed f).loops[index]? = some thread) :
    ∃ old, process.loops[index]? = some old ∧ thread = if changed = index then f old else old := by
  rw [modifyLoop, List.getElem?_modify] at h
  obtain ⟨old, hold, rfl⟩ := Option.map_eq_some_iff.mp h
  exact ⟨old, hold, rfl⟩

/-- A started loop has its entry in the table. -/
theorem Consistent.entry (h : process.Consistent loopCount)
    (hget : process.loops[index]? = some thread) (hstarted : thread.position ≠ .unstarted) :
    process.table[index]? = some (some index) := by
  have hlt := (List.getElem?_eq_some_iff.mp hget).1
  have hentry {count : ℕ} (hlt : index < count) :
      ((List.range count).map some)[index]? = some (some index) := by
    rw [List.getElem?_map, List.getElem?_range hlt]
    rfl
  rw [h.table_eq, expectedTable]
  by_cases hmain : process.main = .construct
  · rw [hmain]
    exact hentry hlt
  · have hlast : index < process.last := by
      have hne : index ≠ process.last := by
        rintro rfl
        exact hstarted (h.unstarted hmain thread hget)
      unfold last at hne ⊢
      omega
    split
    · exact hentry hlast
    · rw [List.getElem?_append_left (by simpa using hlast)]
      exact hentry hlast
    · exact hentry hlt
    · exact hentry hlt
    · exact hentry hlt

/-! ## Steps of the main thread -/

section Main

/-- A loop behind the construction of another one. -/
theorem of_getElem?_concat {loops : List LoopThread} {opened : LoopThread}
    (h : (loops ++ [opened])[index]? = some thread) :
    loops[index]? = some thread ∨ (index = loops.length ∧ thread = opened) := by
  rcases Nat.lt_trichotomy index loops.length with hlt | rfl | hgt
  · rw [List.getElem?_append_left hlt] at h
    exact .inl h
  · rw [List.getElem?_concat_length] at h
    exact .inr ⟨rfl, (Option.some.inj h).symm⟩
  · rw [List.getElem?_eq_none (by simpa using Nat.succ_le_of_lt hgt)] at h
    exact absurd h (by simp)

theorem Consistent.construct (h : process.Consistent loopCount) (hmain : process.main = .construct)
    (hlt : process.loops.length < loopCount) :
    Consistent loopCount { process with loops := process.loops ++ [.opened], main := .claim } := by
  refine ⟨?_, ?_, fun _ ↦ ?_, fun _ thread hget ↦ ?_, fun hfalse ↦ absurd hfalse (by simp),
    fun index thread hget hstarted ↦ ?_, h.stopped, fun index thread hget hwaiting ↦ ?_⟩
  · rw [List.length_append]
    exact hlt
  · rw [h.table_eq, expectedTable, expectedTable, hmain]
    simp [last]
  · simp
  · rw [last, List.length_append, List.length_singleton, Nat.add_sub_cancel,
      List.getElem?_concat_length] at hget
    exact Option.some.inj hget ▸ rfl
  · rcases of_getElem?_concat hget with hold | ⟨-, rfl⟩
    · exact h.registered index thread hold hstarted
    · exact absurd rfl hstarted
  · rcases of_getElem?_concat hget with hold | ⟨-, rfl⟩
    · exact h.told index thread hold hwaiting
    · exact absurd hwaiting (by decide)

theorem Consistent.claim (h : process.Consistent loopCount) (hmain : process.main = .claim) :
    Consistent loopCount { process with table := process.table ++ [none], main := .store } := by
  have hne : process.main ≠ .construct := by simp [hmain]
  refine ⟨h.length_le, ?_, fun _ ↦ h.constructing hne, fun _ ↦ h.unstarted hne,
    fun hfalse ↦ absurd hfalse (by simp), h.registered, h.stopped, h.told⟩
  rw [h.table_eq, expectedTable, expectedTable, hmain]
  rfl

theorem Consistent.store (h : process.Consistent loopCount) (hmain : process.main = .store) :
    Consistent loopCount
      { process with
        table := process.table.set (process.table.length - 1) (some process.last)
        main := .add } := by
  have hne : process.main ≠ .construct := by simp [hmain]
  refine ⟨h.length_le, ?_, fun _ ↦ h.constructing hne, fun _ ↦ h.unstarted hne,
    fun hfalse ↦ absurd hfalse (by simp), h.registered, h.stopped, h.told⟩
  obtain ⟨count, hcount⟩ := Nat.exists_eq_succ_of_ne_zero (Nat.ne_of_gt (h.constructing hne))
  rw [h.table_eq, expectedTable, expectedTable, hmain]
  simp [last, hcount, List.range_succ]

theorem Consistent.add (h : process.Consistent loopCount) (hmain : process.main = .add) :
    Consistent loopCount
      { process.modifyLoop process.last fun thread ↦ { thread with registered := true } with
        main := .start } := by
  have hne : process.main ≠ .construct := by simp [hmain]
  have hlength : (process.modifyLoop process.last fun thread ↦
      { thread with registered := true }).loops.length = process.loops.length :=
    List.length_modify ..
  have hlast : last { process.modifyLoop process.last fun thread ↦
      { thread with registered := true } with main := .start } = process.last :=
    congrArg (· - 1) hlength
  refine ⟨hlength ▸ h.length_le, ?_, fun _ ↦ Nat.lt_of_lt_of_eq (h.constructing hne) hlength.symm,
    fun _ thread hget ↦ ?_, fun _ thread hget ↦ ?_, fun index thread hget hstarted ↦ ?_, h.stopped,
    fun index thread hget hwaiting ↦ ?_⟩
  · have htable := h.table_eq
    rw [expectedTable, hmain] at htable
    rw [expectedTable]
    dsimp only
    rw [hlength]
    exact htable
  · rw [hlast] at hget
    obtain ⟨old, hold, rfl⟩ := of_getElem?_modifyLoop hget
    have hposition := h.unstarted hne old hold
    split <;> exact hposition
  · rw [hlast] at hget
    obtain ⟨old, hold, rfl⟩ := of_getElem?_modifyLoop hget
    rw [if_pos rfl]
  · obtain ⟨old, hold, rfl⟩ := of_getElem?_modifyLoop hget
    split
    · rfl
    · rename_i hother
      rw [if_neg hother] at hstarted
      exact h.registered index old hold hstarted
  · obtain ⟨old, hold, rfl⟩ := of_getElem?_modifyLoop hget
    have htold := h.told index old hold
    split at hwaiting <;> split <;> exact htold hwaiting

theorem Consistent.start (h : process.Consistent loopCount) (hmain : process.main = .start) :
    Consistent loopCount
      { process.modifyLoop process.last fun thread ↦ { thread with position := .test } with
        main := .construct } := by
  have hne : process.main ≠ .construct := by simp [hmain]
  have hlength : (process.modifyLoop process.last fun thread ↦
      { thread with position := .test }).loops.length = process.loops.length :=
    List.length_modify ..
  refine ⟨hlength ▸ h.length_le, ?_, fun hfalse ↦ absurd rfl hfalse,
    fun hfalse ↦ absurd rfl hfalse, fun hfalse ↦ absurd hfalse (by simp),
    fun index thread hget hstarted ↦ ?_, h.stopped, fun index thread hget hwaiting ↦ ?_⟩
  · have htable := h.table_eq
    rw [expectedTable, hmain] at htable
    rw [expectedTable]
    dsimp only
    rw [hlength]
    exact htable
  · obtain ⟨old, hold, rfl⟩ := of_getElem?_modifyLoop hget
    split
    · rename_i hlast
      exact h.added hmain old (hlast ▸ hold)
    · rename_i hother
      rw [if_neg hother] at hstarted
      exact h.registered index old hold hstarted
  · obtain ⟨old, hold, rfl⟩ := of_getElem?_modifyLoop hget
    split at hwaiting
    · exact absurd hwaiting (by simp)
    · rename_i hother
      rw [if_neg hother]
      exact h.told index old hold hwaiting

/-- With room for every loop in the table, the main thread keeps the invariant. -/
theorem Consistent.mainStep (h : process.Consistent loopCount)
    (hcount : loopCount ≤ wakeupCapacity) : (process.mainStep loopCount).Consistent loopCount := by
  unfold ServerProcess.mainStep
  split
  · rename_i hmain
    split
    · rename_i hlt
      exact h.construct hmain hlt
    · exact h
  · rename_i hmain
    have hroom : process.table.length < wakeupCapacity := by
      have hpos := h.constructing (by simp [hmain])
      have hle := h.length_le
      rw [h.table_eq, expectedTable, hmain]
      simp only [List.length_map, List.length_range, last]
      omega
    rw [if_pos hroom]
    exact h.claim hmain
  · rename_i hmain
    exact h.store hmain
  · rename_i hmain
    exact h.add hmain
  · rename_i hmain
    exact h.start hmain

end Main

/-! ## Steps of the loops and of the handler -/

/-- A change of loops that starts none of them, and tells those that wait. -/
theorem Consistent.modify (h : process.Consistent loopCount) {process' : ServerProcess} {changed : ℕ}
    {f : LoopThread → LoopThread}
    (hloops : process'.loops = process.loops.modify changed f)
    (hmain : process'.main = process.main) (htable : process'.table = process.table)
    (hstop : process'.handler ≠ .idle → process'.stop = true)
    (hunstarted : ∀ thread, (f thread).position = .unstarted ↔ thread.position = .unstarted)
    (hregistered : ∀ thread, (f thread).registered = thread.registered)
    (htold : ∀ (index : ℕ) (thread : LoopThread), process'.loops[index]? = some thread →
      thread.position = .waiting → process'.Passed index → 0 < thread.wakeup) :
    process'.Consistent loopCount := by
  have hlength : process'.loops.length = process.loops.length := by
    rw [hloops, List.length_modify]
  have hlast : process'.last = process.last := congrArg (· - 1) hlength
  have hold {index : ℕ} {thread : LoopThread} (hget : process'.loops[index]? = some thread) :
      ∃ old, process.loops[index]? = some old ∧
        (thread.position = .unstarted ↔ old.position = .unstarted) ∧
        thread.registered = old.registered := by
    have hmodified : (process.modifyLoop changed f).loops[index]? = some thread := by
      rw [modifyLoop, ← hloops]
      exact hget
    obtain ⟨old, hold, rfl⟩ := of_getElem?_modifyLoop hmodified
    refine ⟨old, hold, ?_⟩
    split
    · exact ⟨hunstarted old, hregistered old⟩
    · exact ⟨Iff.rfl, rfl⟩
  refine ⟨hlength ▸ h.length_le, ?_, fun hne ↦ ?_, fun hne thread hget ↦ ?_,
    fun hstart thread hget ↦ ?_, fun index thread hget hstarted ↦ ?_, hstop, htold⟩
  · rw [htable, h.table_eq, expectedTable, expectedTable, hmain, hlast, hlength]
  · exact Nat.lt_of_lt_of_eq (h.constructing (hmain ▸ hne)) hlength.symm
  · obtain ⟨old, hget, hposition, -⟩ := hold hget
    exact hposition.mpr (h.unstarted (hmain ▸ hne) old (hlast ▸ hget))
  · obtain ⟨old, hget, -, hregistered⟩ := hold hget
    exact hregistered.trans (h.added (hmain ▸ hstart) old (hlast ▸ hget))
  · obtain ⟨old, hget, hposition, hregistered⟩ := hold hget
    exact hregistered.trans
      (h.registered index old hget fun hold ↦ hstarted (hposition.mpr hold))

theorem Consistent.loopStep (h : process.Consistent loopCount) (changed : ℕ) (result : WaitResult) :
    (process.modifyLoop changed (LoopThread.step process.stop result)).Consistent loopCount := by
  refine h.modify rfl rfl rfl h.stopped (LoopThread.step_unstarted_iff _ result)
    (LoopThread.step_registered _ result) fun index thread hget hwaiting hpassed ↦ ?_
  obtain ⟨old, hold, rfl⟩ := of_getElem?_modifyLoop hget
  split at hwaiting
  · rename_i heq
    rw [if_pos heq]
    rcases LoopThread.of_step_waiting _ result old hwaiting with ⟨hposition, hsame⟩ | ⟨-, hstop⟩
    · rw [hsame]
      exact h.told index old hold hposition hpassed
    · -- the handler has set the flag before it comes past anything
      have hidle : process.handler = .idle := by
        by_contra hne
        exact absurd (h.stopped hne) (by simp [hstop])
      exact absurd hpassed (by simp [Passed, modifyLoop, hidle])
  · rename_i hne
    rw [if_neg hne]
    exact h.told index old hold hwaiting hpassed

theorem Consistent.signal (h : process.Consistent loopCount) :
    Consistent loopCount { process with stop := true, handler := .broadcasting 0 } :=
  ⟨h.length_le, h.table_eq, h.constructing, h.unstarted, h.added, h.registered, fun _ ↦ rfl,
    fun index _ _ _ hpassed ↦ absurd hpassed (Nat.not_lt_zero index)⟩

theorem Consistent.handlerStep (h : process.Consistent loopCount) :
    process.handlerStep.Consistent loopCount := by
  unfold ServerProcess.handlerStep
  split
  · rename_i next hhandler
    have hstop : process.stop = true := h.stopped (by simp [hhandler])
    have htold (index : ℕ) (thread : LoopThread) (hget : process.loops[index]? = some thread)
        (hwaiting : thread.position = .waiting) (hlt : index < next) : 0 < thread.wakeup := by
      refine h.told index thread hget hwaiting ?_
      rw [Passed, hhandler]
      exact hlt
    have hentry (index : ℕ) (thread : LoopThread) (hget : process.loops[index]? = some thread)
        (hwaiting : thread.position = .waiting) : process.table[index]? = some (some index) :=
      h.entry hget (by simp [hwaiting])
    split
    · rename_i loop hnext
      refine h.modify rfl rfl rfl (fun _ ↦ hstop) (fun _ ↦ Iff.rfl) (fun _ ↦ rfl)
        fun index thread hget hwaiting hpassed ↦ ?_
      obtain ⟨old, hold, rfl⟩ := of_getElem?_modifyLoop hget
      by_cases hloop : loop = index
      · rw [if_pos hloop]
        exact Nat.succ_pos _
      · rw [if_neg hloop] at hwaiting ⊢
        have hne : index ≠ next := by
          rintro rfl
          have heq := hnext.symm.trans (hentry index old hold hwaiting)
          exact hloop (Option.some.inj (Option.some.inj heq))
        exact htold index old hold hwaiting (Nat.lt_of_le_of_ne (Nat.le_of_lt_succ hpassed) hne)
    · rename_i hnext
      refine ⟨h.length_le, h.table_eq, h.constructing, h.unstarted, h.added, h.registered,
        fun _ ↦ hstop, fun index thread hget hwaiting hpassed ↦ ?_⟩
      have hne : index ≠ next := by
        rintro rfl
        exact absurd (hnext.symm.trans (hentry index thread hget hwaiting)) (by simp)
      exact htold index thread hget hwaiting (Nat.lt_of_le_of_ne (Nat.le_of_lt_succ hpassed) hne)
    · rename_i hnext
      refine ⟨h.length_le, h.table_eq, h.constructing, h.unstarted, h.added, h.registered,
        fun _ ↦ hstop, fun index thread hget hwaiting _ ↦ htold index thread hget hwaiting ?_⟩
      -- the entry of a waiting loop is in front of the end of the table
      have hlt := (List.getElem?_eq_some_iff.mp (hentry index thread hget hwaiting)).1
      exact Nat.lt_of_lt_of_le hlt (List.getElem?_eq_none_iff.mp hnext)
  · exact h

theorem Consistent.step (h : process.Consistent loopCount) (hcount : loopCount ≤ wakeupCapacity)
    (input : ProcessInput) : (process.step loopCount input).Consistent loopCount := by
  cases input with
  | main => exact h.mainStep hcount
  | loop index result => exact h.loopStep index result
  | signal =>
    unfold ServerProcess.step
    dsimp only
    split
    · exact h.signal
    · exact h
  | handler => exact h.handlerStep

theorem Consistent.allAlerted (h : process.Consistent loopCount) : process.AllAlerted := by
  intro hreturned thread hmem hinLoop
  obtain ⟨index, hget⟩ := List.mem_iff_getElem?.mp hmem
  by_cases hwaiting : thread.position = .waiting
  · refine .inl ⟨h.registered index thread hget hinLoop.1, h.told index thread hget hwaiting ?_⟩
    rw [Passed, hreturned]
    trivial
  · exact .inr (.inr hwaiting)

/-! ## Results -/

/-- All 65 loops are constructed, the last one waits, and the signal arrives. -/
def lateSignal : List ProcessInput :=
  List.replicate 324 .main ++ [.loop 64 .failed, .signal] ++ List.replicate 65 .handler

theorem lateSignal_not_alerted : ¬ AllAlerted (run (step 65) new lateSignal) := by
  decide +kernel

/-- With more than 65 loops the same inputs have the same effect. -/
theorem run_lateSignal {loopCount : ℕ} (hcount : 65 ≤ loopCount) :
    run (step loopCount) new lateSignal = run (step 65) new lateSignal := by
  have hfirst : Always (step 65) (fun process input ↦ input = .main → process.main = .construct →
      process.loops.length < 65) new lateSignal := by
    decide +kernel
  refine run_congr (fun process input hroom ↦ ?_) hfirst
  cases input with
  | main =>
    unfold step mainStep
    dsimp only
    cases hmain : process.main with
    | construct =>
      have hlt := hroom rfl hmain
      simp only
      rw [if_pos hlt, if_pos (Nat.lt_of_lt_of_le hlt hcount)]
    | claim => rfl
    | store => rfl
    | add => rfl
    | start => rfl
  | loop index result => rfl
  | signal => rfl
  | handler => rfl

/-- Shutdown reaches every loop, whatever the order of the steps and the moment of the signal, if and
only if the table has room for all loops. -/
theorem shutdown_reaches_iff (loopCount : ℕ) :
    (∀ inputs, AllAlerted (run (step loopCount) new inputs)) ↔ loopCount ≤ wakeupCapacity := by
  constructor
  · intro hall
    by_contra hcount
    have halerted := hall lateSignal
    rw [run_lateSignal (Nat.lt_of_not_le hcount)] at halerted
    exact lateSignal_not_alerted halerted
  · intro hcount inputs
    have hstep (process : ServerProcess) (input : ProcessInput)
        (h : process.Consistent loopCount) : (process.step loopCount input).Consistent loopCount :=
      h.step hcount input
    exact (run_invariant_of_forall hstep (consistent_new loopCount) inputs).allAlerted

/-- The last of 65 loops is not told. -/
theorem shutdown_misses_loop :
    ¬ ∀ loopCount inputs, AllAlerted (run (step loopCount) new inputs) :=
  fun h ↦ lateSignal_not_alerted (h 65 lateSignal)

end ServerProcess

end WebServer
