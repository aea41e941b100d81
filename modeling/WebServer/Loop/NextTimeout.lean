import Mathlib.Algebra.Group.Int.Defs
import WebServer.Loop.Expiry

/-!
# The time until the next deadline

`getNextTimeout` looks for the first live node of the ordered set, and its answer is about the map: it
is -1 when no descriptor has a timer, and else the number of whole milliseconds until the smallest
deadline in the map. The histories are those of the server, in which a callback of a check removes
timers and adds none; a timeout is any value of an `int`.

The answer is cast to an `int`. It fits because the clock was read for every timer before, so no
deadline is further away than the largest timeout.
-/

namespace WebServer

open Execution

/-- A call of a history in which callbacks only remove timers; `removed` has the descriptors that the
fired callbacks remove, callback by callback. -/
inductive PlainCall where
  | addTimer (now : Time) (fd : ℕ) (timeout : Int32)
  | removeTimer (fd : ℕ)
  | checkExpired (now : Time) (removed : List (List ℕ))

namespace PlainCall

def input : PlainCall → TimerInput
  | addTimer now fd timeout => .op (.add now fd timeout.toInt)
  | removeTimer fd => .op (.remove fd)
  | checkExpired now removed => .check now (removed.map fun fds ↦ fds.map .remove)

/-- The clock is not read after `now`. -/
def ReadsBefore (now : Time) : PlainCall → Prop
  | addTimer read _ _ => read ≤ now
  | removeTimer _ => True
  | checkExpired read _ => read ≤ now

/-- The timer after a history. -/
def timerAfter (history : List PlainCall) : TcpTimer ℕ :=
  (run (fun host call ↦ host.step call.input) TimerHost.new history).timer

end PlainCall

namespace TcpTimer

variable {κ : Type*} {timer : TcpTimer κ} {now : Time}

/-- A node of the map with the smallest deadline. -/
structure Earliest (timer : TcpTimer κ) (node : TimerNode κ) : Prop where
  mapped : timer.timerMap.lookup node.fd = some node
  least : ∀ fd other, timer.timerMap.lookup fd = some other → node.expireTime ≤ other.expireTime

/-- Whole milliseconds until a deadline, none when it has passed. -/
def remaining (now expireTime : Time) : ℤ := max 0 (Time.toMilliseconds (expireTime - now))

/-- What the loop is told: -1 for an empty map, and else the time until the smallest deadline in it. -/
structure TellsNext (timer : TcpTimer κ) (now : Time) : Prop where
  none_iff : timer.getNextTimeout now = -1 ↔ timer.timerMap = ∅
  earliest : timer.timerMap ≠ ∅ → ∃ node, timer.Earliest node ∧
    (timer.getNextTimeout now).toInt = remaining now node.expireTime

/-! ## The first live node -/

theorem nextTimeout_of_deleted {nodes : List (TimerNode κ)}
    (h : ∀ node ∈ nodes, timer.isDeleted node) : timer.nextTimeout now nodes = -1 := by
  induction nodes with
  | nil => rfl
  | cons node nodes ih =>
    obtain ⟨hnode, hrest⟩ := List.forall_mem_cons.mp h
    rw [nextTimeout, if_pos hnode]
    exact ih hrest

/-- The answer for a list is that for its first live node. -/
theorem nextTimeout_append {skipped nodes : List (TimerNode κ)} {node : TimerNode κ}
    (hskipped : ∀ other ∈ skipped, timer.isDeleted other) (hlive : ¬ timer.isDeleted node) :
    timer.nextTimeout now (skipped ++ node :: nodes) =
      if node.expireTime ≤ now then 0
      else if Time.toMilliseconds (node.expireTime - now) > 0 then
        Int32.ofInt (Time.toMilliseconds (node.expireTime - now))
      else 0 := by
  induction skipped with
  | nil => rw [List.nil_append, nextTimeout, if_neg hlive]
  | cons other skipped ih =>
    obtain ⟨hother, hrest⟩ := List.forall_mem_cons.mp hskipped
    rw [List.cons_append, nextTimeout, if_pos hother]
    exact ih hrest

/-- The cast to an `int` keeps the answer, for a deadline at most the largest timeout away. -/
theorem toInt_answer {expireTime : Time} (h : expireTime < now + Time.milliseconds (2 ^ 31)) :
    (if expireTime ≤ now then (0 : Int32)
      else if Time.toMilliseconds (expireTime - now) > 0 then
        Int32.ofInt (Time.toMilliseconds (expireTime - now))
      else 0).toInt = remaining now expireTime := by
  unfold Time.milliseconds at h
  unfold remaining
  by_cases hpassed : expireTime ≤ now
  · have hms : Time.toMilliseconds (expireTime - now) ≤ 0 :=
      Time.toMilliseconds_nonpos (Int.sub_nonpos_of_le hpassed)
    rw [if_pos hpassed, Int.max_eq_left hms]
    rfl
  · have hms : Time.toMilliseconds (expireTime - now) = (expireTime - now) / 1000000 :=
      Time.toMilliseconds_of_nonneg (Int.sub_nonneg_of_le (Int.le_of_lt (Int.not_le.mp hpassed)))
    have hlt : (expireTime - now) / 1000000 < 2 ^ 31 :=
      Int.ediv_lt_of_lt_mul (by decide) (Int.sub_left_lt_of_lt_add h)
    rw [if_neg hpassed, hms]
    split
    · rename_i hpos
      rw [Int.max_eq_right (Int.le_of_lt hpos), Int32.toInt_ofInt_of_le (by omega) hlt]
    · rename_i hpos
      rw [Int.max_eq_left (Int.not_lt.mp hpos)]
      rfl

theorem exists_lookup_of_ne_empty {timerMap : AList fun _ : ℕ ↦ TimerNode κ} (h : timerMap ≠ ∅) :
    ∃ fd node, timerMap.lookup fd = some node := by
  obtain ⟨entries, hnodup⟩ := timerMap
  cases entries with
  | nil => exact absurd rfl h
  | cons entry rest => exact ⟨entry.1, entry.2, List.dlookup_cons_eq ..⟩

/-- A set in agreement with the map is deleted nodes only, or its first live node is the earliest node
of the map. -/
theorem Agrees.first_live (h : timer.Agrees []) :
    (timer.timerMap = ∅ ∧ ∀ node ∈ timer.timerSet, timer.isDeleted node) ∨
    ∃ skipped node rest, timer.timerSet = skipped ++ node :: rest ∧
      (∀ other ∈ skipped, timer.isDeleted other) ∧ ¬ timer.isDeleted node ∧
      timer.Earliest node := by
  have hmapped := h.mapped
  have hmem := h.live
  rw [List.append_nil] at hmapped hmem
  cases hfind : timer.timerSet.find? fun node ↦ !timer.isDeleted node with
  | none =>
    have hdeleted : ∀ node ∈ timer.timerSet, timer.isDeleted node := by simpa using hfind
    refine .inl ⟨?_, hdeleted⟩
    by_contra hne
    obtain ⟨fd, node, hlookup⟩ := exists_lookup_of_ne_empty hne
    obtain ⟨-, hnode, hlive⟩ := hmem fd node hlookup
    exact hlive (of_decide_eq_true (hdeleted node hnode))
  | some node =>
    obtain ⟨hlive, skipped, rest, hset, hskipped⟩ := List.find?_eq_some_iff_append.mp hfind
    have hskipped' : ∀ other ∈ skipped, timer.isDeleted other := by simpa using hskipped
    have hlive' : ¬ timer.isDeleted node := by simpa using hlive
    refine .inr ⟨skipped, node, rest, hset, hskipped', hlive', ?_, fun fd other hlookup ↦ ?_⟩
    · exact hmapped node (hset ▸ by simp) fun hmark ↦ hlive' (decide_eq_true hmark)
    · -- the other node is live, so it is not before the first live one
      obtain ⟨-, hother, hotherLive⟩ := hmem fd other hlookup
      have hsorted := h.sorted
      rw [hset] at hother hsorted
      rcases List.mem_append.mp hother with hbefore | hother
      · exact absurd (of_decide_eq_true (hskipped' other hbefore)) hotherLive
      · rcases List.mem_cons.mp hother with rfl | hbehind
        · exact Int.le_refl _
        · exact (List.pairwise_cons.mp (List.pairwise_append.mp hsorted).2.1).1 other hbehind

/-- The answer is about the map, when no deadline of the set is too far away for an `int`. -/
theorem Agrees.tellsNext (h : timer.Agrees [])
    (hnear : ∀ node ∈ timer.timerSet, node.expireTime < now + Time.milliseconds (2 ^ 31)) :
    timer.TellsNext now := by
  unfold Time at now
  rcases h.first_live with ⟨hempty, hdeleted⟩ | ⟨skipped, node, rest, hset, hskipped, hlive, hfirst⟩
  · have hanswer : timer.getNextTimeout now = -1 := nextTimeout_of_deleted hdeleted
    exact ⟨iff_of_true hanswer hempty, fun hne ↦ absurd hempty hne⟩
  · have hanswer : (timer.getNextTimeout now).toInt = remaining now node.expireTime := by
      unfold getNextTimeout
      rw [hset, nextTimeout_append hskipped hlive]
      exact toInt_answer (hnear node (hset ▸ by simp))
    refine ⟨iff_of_false (fun hnone ↦ ?_) fun hempty ↦ ?_, fun _ ↦ ⟨node, hfirst, hanswer⟩⟩
    · rw [hnone] at hanswer
      have hnonneg : 0 ≤ remaining now node.expireTime := Int.le_max_left ..
      rw [← hanswer] at hnonneg
      exact absurd hnonneg (by decide)
    · have hlookup := hfirst.mapped
      rw [hempty, AList.lookup_empty] at hlookup
      exact absurd hlookup (by simp)

end TcpTimer

/-! ## Histories -/

namespace TimerHost

variable {host : TimerHost}

/-- Every call of a script is a removal. -/
def RemovesOnly (script : List (List TimerOp)) : Prop :=
  ∀ ops ∈ script, ∀ op ∈ ops, ∃ fd, op = .remove fd

/-- Callbacks that add no timer disturb no waiting node. -/
theorem noneRefreshed_of_removesOnly {calls : List TimerOp} {script : List (List TimerOp)}
    (hcalls : ∀ call ∈ calls, ∃ fd, call = .remove fd) (hscript : RemovesOnly script)
    (fds : List ℕ) : NoneRefreshed calls fds script := by
  induction fds generalizing calls script with
  | nil => trivial
  | cons fd fds ih =>
    unfold NoneRefreshed
    split
    · rename_i hlast
      obtain ⟨fd', hfalse⟩ := hcalls _ (List.mem_of_mem_filter (List.mem_of_getLast? hlast))
      exact absurd hfalse (by simp)
    · exact ih hcalls hscript
    · cases script with
      | nil => exact ih (by simpa using hcalls) hscript
      | cons ops script =>
        obtain ⟨hops, hrest⟩ := List.forall_mem_cons.mp hscript
        exact ih (List.forall_mem_append.mpr ⟨hcalls, hops⟩) hrest

/-- Removals leave the set as it is. -/
theorem timerSet_foldl_perform {ops : List TimerOp} (hops : ∀ op ∈ ops, ∃ fd, op = .remove fd) :
    (ops.foldl perform host).timer.timerSet = host.timer.timerSet := by
  induction ops generalizing host with
  | nil => rfl
  | cons op ops ih =>
    obtain ⟨⟨fd, rfl⟩, hrest⟩ := List.forall_mem_cons.mp hops
    exact (ih hrest).trans (TcpTimer.timerSet_removeTimer host.timer fd)

theorem timerSet_fire (hscript : RemovesOnly host.script) (node : TimerNode ℕ) :
    (host.fire node).timer.timerSet = host.timer.timerSet ∧ RemovesOnly (host.fire node).script := by
  by_cases hlive : node.id ∈ host.timer.deleted
  · rw [fire_of_deleted hlive]
    exact ⟨rfl, hscript⟩
  · rw [fire_of_live hlive]
    refine ⟨?_, ?_⟩
    · rw [call_eq]
      refine timerSet_foldl_perform fun op hop ↦ ?_
      cases hops : host.script with
      | nil => simp [setTimer, hops] at hop
      | cons ops script =>
        rw [hops] at hscript
        exact hscript ops List.mem_cons_self op (by simpa [setTimer, hops] using hop)
    · rw [script_call]
      exact fun ops hops ↦ hscript ops (List.mem_of_mem_tail hops)

/-- A check whose callbacks only remove timers leaves a part of the set. -/
theorem timerSet_check (host : TimerHost) (now : Time) {script : List (List TimerOp)}
    (hscript : RemovesOnly script) :
    (host.step (.check now script)).timer.timerSet = (host.timer.scan now host.timer.timerSet).2 := by
  have hfire (state : TimerHost) (node : TimerNode ℕ)
      (h : state.timer.timerSet = (host.timer.scan now host.timer.timerSet).2 ∧
        RemovesOnly state.script) :
      (state.fire node).timer.timerSet = (host.timer.scan now host.timer.timerSet).2 ∧
        RemovesOnly (state.fire node).script := by
    obtain ⟨hset, hrest⟩ := timerSet_fire h.2 node
    exact ⟨hset.trans h.1, hrest⟩
  have hstart : (host.scanned now script).timer.timerSet =
      (host.timer.scan now host.timer.timerSet).2 ∧ RemovesOnly (host.scanned now script).script :=
    ⟨rfl, hscript⟩
  exact (run_invariant_of_forall hfire hstart _).1

end TimerHost

namespace PlainCall

variable {host : TimerHost} {now : Time}

theorem removesOnly_input (removed : List (List ℕ)) :
    TimerHost.RemovesOnly (removed.map fun fds ↦ fds.map TimerOp.remove) := by
  intro ops hops op hop
  obtain ⟨fds, -, rfl⟩ := List.mem_map.mp hops
  obtain ⟨fd, -, rfl⟩ := List.mem_map.mp hop
  exact ⟨fd, rfl⟩

/-- The callbacks of a plain call leave the waiting nodes alone. -/
theorem coherent_step (h : host.Coherent []) (call : PlainCall) :
    (host.step call.input).Coherent [] := by
  refine h.step ((h.noneDisturbed_iff call.input).mpr ?_)
  cases call with
  | addTimer => trivial
  | removeTimer => trivial
  | checkExpired read removed =>
    exact TimerHost.noneRefreshed_of_removesOnly (by simp) (removesOnly_input removed) _

/-- A timer is made with a deadline that is at most the largest timeout after the reading. -/
theorem near_step {call : PlainCall} (hread : call.ReadsBefore now)
    (hnear : ∀ node ∈ host.timer.timerSet, node.expireTime < now + Time.milliseconds (2 ^ 31)) :
    ∀ node ∈ (host.step call.input).timer.timerSet,
      node.expireTime < now + Time.milliseconds (2 ^ 31) := by
  intro node hnode
  cases call with
  | addTimer read fd timeout =>
    rcases TcpTimer.mem_timerSet_addTimer.mp hnode with rfl | hold
    · have hlt : Time.milliseconds timeout.toInt < Time.milliseconds (2 ^ 31) :=
        Int.mul_lt_mul_of_pos_right timeout.toInt_lt (by decide)
      exact Int.add_lt_add_of_le_of_lt hread hlt
    · exact hnear node hold
  | removeTimer fd =>
    change node ∈ (host.timer.removeTimer fd).timerSet at hnode
    rw [TcpTimer.timerSet_removeTimer] at hnode
    exact hnear node hnode
  | checkExpired read removed =>
    rw [input, TimerHost.timerSet_check host read (removesOnly_input removed)] at hnode
    obtain ⟨-, -, -, hsuffix⟩ := TcpTimer.scan_spec host.timer read host.timer.timerSet
    exact hnear node (hsuffix.subset hnode)

/-- After every history in which callbacks only remove timers, and at every time that is not before
the last reading of the clock, the loop is told -1 if no descriptor has a timer, and else the whole
milliseconds until the smallest deadline in the map. -/
theorem timerAfter_tellsNext (history : List PlainCall) (now : Time)
    (hread : ∀ call ∈ history, call.ReadsBefore now) : (timerAfter history).TellsNext now := by
  have hstep (host : TimerHost) (call : PlainCall)
      (h : host.Coherent [] ∧
        ∀ node ∈ host.timer.timerSet, node.expireTime < now + Time.milliseconds (2 ^ 31))
      (hread : call.ReadsBefore now) : (host.step call.input).Coherent [] ∧
        ∀ node ∈ (host.step call.input).timer.timerSet,
          node.expireTime < now + Time.milliseconds (2 ^ 31) :=
    ⟨coherent_step h.1 call, near_step hread h.2⟩
  have hstart : TimerHost.new.Coherent [] ∧ ∀ node ∈ TimerHost.new.timer.timerSet,
      node.expireTime < now + Time.milliseconds (2 ^ 31) :=
    ⟨TimerHost.coherent_new, by simp [TimerHost.new, TcpTimer.new]⟩
  obtain ⟨hcoherent, hnear⟩ := run_invariant hstep hstart (always_of_forall _ hread _)
  exact hcoherent.timer.tellsNext hnear

/-- Two connections time out after 10 and 20 ms, the first is gone when the loop asks. -/
theorem timerAfter_tellsNext_removed :
    (timerAfter [.addTimer 0 1 10, .addTimer 0 2 20, .removeTimer 1]).TellsNext 5500000 ∧
      (timerAfter [.addTimer 0 1 10, .addTimer 0 2 20, .removeTimer 1]).getNextTimeout 5500000 = 14 :=
  ⟨timerAfter_tellsNext _ _ (by simp [ReadsBefore]), by decide⟩

end PlainCall

end WebServer
