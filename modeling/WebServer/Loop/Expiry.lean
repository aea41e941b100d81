import WebServer.Loop.TimerHistory

/-!
# The batch of one check

A check takes its batch out of the ordered set before any callback runs: every live node whose
deadline has passed, earliest first, wherever deleted and waiting nodes stand between them. Then each
node of the batch has its turn, and its callback is entered unless a callback entered before it has
removed or replaced the timer of its descriptor.

`due` and `entered` say this without the scan and the marks, and the run of the turns is compared with
them. A turn may take a new node out of the map, as in `TimerHistory`; the nodes that wait have other
descriptors, so this does not change which of them fire.
-/

namespace WebServer

open Execution

/-- The live nodes of the set whose deadline has passed, in the order of the set. -/
def TcpTimer.due {κ : Type*} (timer : TcpTimer κ) (now : Time) : List (TimerNode κ) :=
  timer.timerSet.filter fun node ↦ !timer.isDeleted node && node.isExpired now

/-- The nodes of a batch whose callbacks are entered. `calls` are the calls that the callbacks entered
so far have made; a node is passed over if one of them is for its descriptor. -/
def entered (calls : List TimerOp) :
    List (TimerNode ℕ) → List (List TimerOp) → List (TimerNode ℕ)
  | [], _ => []
  | node :: nodes, script =>
    if ∃ call ∈ calls, call.fd = node.fd then entered calls nodes script
    else node :: entered (calls ++ script.headD []) nodes script.tail

/-- The callbacks of a trace, in the order in which they were entered. -/
def firedIds (trace : List TimerEvent) : List ℕ :=
  trace.filterMap fun
    | .fired id => some id
    | _ => none

@[simp]
theorem firedIds_append (first second : List TimerEvent) :
    firedIds (first ++ second) = firedIds first ++ firedIds second :=
  List.filterMap_append

/-! ## The batch -/

namespace TcpTimer

variable {κ : Type*} {timer : TcpTimer κ} {now : Time} {node : TimerNode κ}

theorem mem_due : node ∈ timer.due now ↔
    node ∈ timer.timerSet ∧ node.id ∉ timer.deleted ∧ node.expireTime < now := by
  simp [due, isDeleted, TimerNode.isExpired]

/-- In an ordered set the scan takes every live expired node, not only those of the front. -/
theorem scan_eq_filter (timer : TcpTimer κ) (now : Time) {nodes : List (TimerNode κ)}
    (hsorted : nodes.Pairwise fun first second ↦ first.expireTime ≤ second.expireTime) :
    (timer.scan now nodes).1 =
      nodes.filter fun node ↦ !timer.isDeleted node && node.isExpired now := by
  induction nodes with
  | nil => rfl
  | cons first nodes ih =>
    obtain ⟨hfirst, hrest⟩ := List.pairwise_cons.mp hsorted
    unfold scan
    by_cases hdeleted : timer.isDeleted first
    · rw [if_pos hdeleted, List.filter_cons_of_neg (by simp [hdeleted])]
      exact ih hrest
    · rw [if_neg hdeleted]
      by_cases hexpired : first.isExpired now
      · rw [if_pos hexpired, List.filter_cons_of_pos (by simp [hdeleted, hexpired]), ih hrest]
      · -- the scan stops here, and no later node has expired either
        have hlater : ∀ node ∈ first :: nodes, node.isExpired now = false := by
          have hnow : now ≤ first.expireTime :=
            Int.not_lt.mp fun hlt ↦ hexpired (decide_eq_true hlt)
          refine List.forall_mem_cons.mpr ⟨by simpa using hexpired, fun node hnode ↦ ?_⟩
          exact decide_eq_false (Int.not_lt.mpr (Int.le_trans hnow (hfirst node hnode)))
        rw [if_neg hexpired, eq_comm, List.filter_eq_nil_iff]
        intro node hnode
        simp [hlater node hnode]

theorem Agrees.scan_eq_due {pending : List (TimerNode κ)} (h : timer.Agrees pending) (now : Time) :
    (timer.scan now timer.timerSet).1 = timer.due now :=
  scan_eq_filter timer now h.sorted

theorem Agrees.due_sorted {pending : List (TimerNode κ)} (h : timer.Agrees pending) (now : Time) :
    (timer.due now).Pairwise fun first second ↦ first.expireTime ≤ second.expireTime :=
  h.sorted.filter _

theorem Agrees.due_nodup {pending : List (TimerNode κ)} (h : timer.Agrees pending) (now : Time) :
    ((timer.due now).map TimerNode.id).Nodup :=
  ((List.nodup_append.mp (List.map_append ▸ h.nodup)).1).sublist
    (List.filter_sublist.map TimerNode.id)

end TcpTimer

/-! ## A node that waits for its turn -/

namespace TimerHost

variable {host : TimerHost} {node : TimerNode ℕ} {pending : List (TimerNode ℕ)}
  {calls : List TimerOp}

/-- The state of a waiting node, from the calls that the callbacks of its batch have made. Only the
entry of its own descriptor can lead to its mark. -/
structure Waits (timer : TcpTimer ℕ) (calls : List TimerOp) (node : TimerNode ℕ) : Prop where
  fresh : node.id < timer.nextId
  own : ∀ fd other, timer.timerMap.lookup fd = some other → other.id = node.id → fd = node.fd
  untouched : (∀ call ∈ calls, call.fd ≠ node.fd) →
    timer.timerMap.lookup node.fd = some node ∧ node.id ∉ timer.deleted
  touched : (∃ call ∈ calls, call.fd = node.fd) → node.id ∈ timer.deleted

/-! ### What one call changes -/

theorem nextId_le_perform (host : TimerHost) (op : TimerOp) :
    host.timer.nextId ≤ (host.perform op).timer.nextId := by
  cases op with
  | add now fd timeout => exact Nat.le_succ _
  | remove fd => exact Nat.le_of_eq (TcpTimer.nextId_removeTimer host.timer fd).symm

theorem mem_deleted_perform {op : TimerOp} {id : ℕ} :
    id ∈ (host.perform op).timer.deleted ↔
      id ∈ host.timer.deleted ∨
        ∃ other, host.timer.timerMap.lookup op.fd = some other ∧ other.id = id := by
  cases op with
  | add now fd timeout => exact TcpTimer.mem_deleted_addTimer
  | remove fd =>
    change id ∈ (host.timer.removeTimer fd).deleted ↔ _
    unfold TcpTimer.removeTimer TimerOp.fd
    cases host.timer.timerMap.lookup fd <;> simp [or_comm, eq_comm]

theorem lookup_perform_of_ne {op : TimerOp} {fd : ℕ} (h : fd ≠ op.fd) :
    (host.perform op).timer.timerMap.lookup fd = host.timer.timerMap.lookup fd := by
  cases op with
  | add now fd' timeout => exact AList.lookup_insert_ne h
  | remove fd' =>
    change (host.timer.removeTimer fd').timerMap.lookup fd = _
    rw [TcpTimer.timerMap_removeTimer]
    exact AList.lookup_erase_ne h

/-- A call leaves nothing but a new node in the map for its descriptor. -/
theorem id_of_lookup_perform {op : TimerOp} {other : TimerNode ℕ}
    (h : (host.perform op).timer.timerMap.lookup op.fd = some other) :
    other.id = host.timer.nextId := by
  cases op with
  | add now fd timeout =>
    change AList.lookup fd (host.timer.timerMap.insert fd _) = some other at h
    rw [AList.lookup_insert] at h
    exact congrArg TimerNode.id (Option.some.inj h).symm
  | remove fd =>
    change (host.timer.removeTimer fd).timerMap.lookup fd = some other at h
    rw [TcpTimer.timerMap_removeTimer, AList.lookup_erase] at h
    exact absurd h (by simp)

theorem mem_timerSet_perform {op : TimerOp} {other : TimerNode ℕ}
    (h : other ∈ (host.perform op).timer.timerSet) :
    other ∈ host.timer.timerSet ∨ other.id = host.timer.nextId := by
  cases op with
  | add now fd timeout =>
    rcases TcpTimer.mem_timerSet_addTimer.mp h with rfl | hold
    · exact .inr rfl
    · exact .inl hold
  | remove fd =>
    change other ∈ (host.timer.removeTimer fd).timerSet at h
    rw [TcpTimer.timerSet_removeTimer] at h
    exact .inl h

@[simp]
theorem firedIds_perform (host : TimerHost) (op : TimerOp) :
    firedIds (host.perform op).trace = firedIds host.trace := by
  cases op <;> simp [perform, emit, setTimer, firedIds]

/-! ### What a turn of another node changes -/

theorem Waits.perform (h : Waits host.timer calls node) (op : TimerOp) :
    Waits (host.perform op).timer (calls ++ [op]) node where
  fresh := Nat.lt_of_lt_of_le h.fresh (nextId_le_perform host op)
  own fd other hlookup hid := by
    by_cases hfd : fd = op.fd
    · subst hfd
      have hnew := id_of_lookup_perform hlookup
      exact absurd (hid.symm.trans hnew) (Nat.ne_of_lt h.fresh)
    · rw [lookup_perform_of_ne hfd] at hlookup
      exact h.own fd other hlookup hid
  untouched hcalls := by
    obtain ⟨hcalls, hop⟩ := List.forall_mem_append.mp hcalls
    have hfd : op.fd ≠ node.fd := hop op List.mem_cons_self
    obtain ⟨hlookup, hlive⟩ := h.untouched hcalls
    refine ⟨(lookup_perform_of_ne hfd.symm).trans hlookup, fun hmark ↦ ?_⟩
    rcases mem_deleted_perform.mp hmark with hmark | ⟨other, hother, hid⟩
    · exact hlive hmark
    · exact hfd (h.own _ other hother hid)
  touched hcalls := by
    rw [mem_deleted_perform]
    by_cases hold : ∃ call ∈ calls, call.fd = node.fd
    · exact .inl (h.touched hold)
    · have huntouched : ∀ call ∈ calls, call.fd ≠ node.fd := by simpa using hold
      obtain ⟨call, hcall, hfd⟩ := hcalls
      rcases List.mem_append.mp hcall with hcall | hcall
      · exact absurd hfd (huntouched call hcall)
      · obtain rfl := List.mem_singleton.mp hcall
        exact .inr ⟨node, hfd ▸ (h.untouched huntouched).1, rfl⟩

theorem Waits.foldl_perform (h : Waits host.timer calls node) (ops : List TimerOp) :
    Waits (ops.foldl TimerHost.perform host).timer (calls ++ ops) node := by
  induction ops generalizing host calls with
  | nil => rwa [List.append_nil]
  | cons op ops ih =>
    rw [List.append_cons]
    exact ih (h.perform op)

/-- The turn of another descriptor takes an entry out of the map that is not the node's. -/
theorem Waits.unmap {timer : TcpTimer ℕ} (h : Waits timer calls node) {fd : ℕ} (hfd : fd ≠ node.fd) :
    Waits (timer.unmap fd) calls node where
  fresh := h.fresh
  own fd' other hlookup := by
    change AList.lookup fd' (timer.timerMap.erase fd) = some other at hlookup
    by_cases hsame : fd' = fd
    · rw [hsame, AList.lookup_erase] at hlookup
      exact absurd hlookup (by simp)
    · rw [AList.lookup_erase_ne hsame] at hlookup
      exact h.own fd' other hlookup
  untouched hcalls := by
    obtain ⟨hlookup, hlive⟩ := h.untouched hcalls
    exact ⟨(AList.lookup_erase_ne hfd.symm).trans hlookup, hlive⟩
  touched := h.touched

/-- A callback makes the calls of the next part of the script. -/
theorem call_eq (host : TimerHost) (callback : ℕ) :
    host.call callback = (host.script.headD []).foldl perform
      { host.emit (.fired callback) with script := host.script.tail } := by
  obtain ⟨timer, script, trace⟩ := host
  cases script <;> rfl

theorem firedIds_foldl_perform (host : TimerHost) (ops : List TimerOp) :
    firedIds (ops.foldl perform host).trace = firedIds host.trace := by
  induction ops generalizing host with
  | nil => rfl
  | cons op ops ih => exact (ih _).trans (firedIds_perform host op)

theorem firedIds_call (host : TimerHost) (callback : ℕ) :
    firedIds (host.call callback).trace = firedIds host.trace ++ [callback] := by
  rw [call_eq, firedIds_foldl_perform]
  exact firedIds_append _ _

theorem Waits.call (h : Waits host.timer calls node) (callback : ℕ) :
    Waits (host.call callback).timer (calls ++ host.script.headD []) node := by
  rw [call_eq]
  have hentered : Waits { host.emit (.fired callback) with script := host.script.tail }.timer
      calls node := h
  exact hentered.foldl_perform _

/-! ## The turns of a batch -/

/-- The turns enter the callbacks of the nodes that no callback before them has touched. -/
theorem firedIds_run_fire (hwaits : ∀ node ∈ pending, Waits host.timer calls node)
    (hfds : (pending.map TimerNode.fd).Nodup)
    (hcallback : ∀ node ∈ pending, node.callback = node.id) :
    firedIds (run TimerHost.fire host pending).trace =
      firedIds host.trace ++ (entered calls pending host.script).map TimerNode.id := by
  induction pending generalizing host calls with
  | nil => simp [entered]
  | cons node pending ih =>
    obtain ⟨hnode, hrest⟩ := List.forall_mem_cons.mp hwaits
    obtain ⟨hfd, hfds⟩ := List.nodup_cons.mp hfds
    obtain ⟨hid, hcallback⟩ := List.forall_mem_cons.mp hcallback
    have hunmap : ∀ other ∈ pending, Waits (host.timer.unmap node.fd) calls other :=
      fun other hother ↦ (hrest other hother).unmap fun heq ↦
        hfd (List.mem_map.mpr ⟨other, hother, heq.symm⟩)
    rw [run_cons, entered]
    by_cases htouched : ∃ call ∈ calls, call.fd = node.fd
    · rw [if_pos htouched, fire_of_deleted (hnode.touched htouched)]
      exact ih hunmap hfds hcallback
    · have huntouched : ∀ call ∈ calls, call.fd ≠ node.fd := by simpa using htouched
      rw [if_neg htouched, fire_of_live (hnode.untouched huntouched).2, hid]
      have hturn : ∀ other ∈ pending,
          Waits ((host.setTimer (host.timer.unmap node.fd)).call node.id).timer
            (calls ++ host.script.headD []) other := by
        intro other hother
        have hset : Waits (host.setTimer (host.timer.unmap node.fd)).timer calls other :=
          hunmap other hother
        exact hset.call node.id
      rw [ih hturn hfds hcallback, firedIds_call, script_call]
      simp [setTimer]

/-! ## Nodes that have left the set -/

/-- A node that was made earlier and is not in the set. -/
structure Left (timer : TcpTimer ℕ) (node : TimerNode ℕ) : Prop where
  fresh : node.id < timer.nextId
  notMem : node ∉ timer.timerSet

theorem Left.perform (h : Left host.timer node) (op : TimerOp) : Left (host.perform op).timer node where
  fresh := Nat.lt_of_lt_of_le h.fresh (nextId_le_perform host op)
  notMem hmem := by
    rcases mem_timerSet_perform hmem with hold | hnew
    · exact h.notMem hold
    · exact Nat.ne_of_lt h.fresh hnew

theorem Left.fire (h : Left host.timer node) (other : TimerNode ℕ) :
    Left (host.fire other).timer node := by
  have hunmap : Left (host.setTimer (host.timer.unmap other.fd)).timer node := ⟨h.fresh, h.notMem⟩
  have hstep (state : TimerHost) (op : TimerOp) (hleft : Left state.timer node) :
      Left (state.perform op).timer node := hleft.perform op
  by_cases hlive : other.id ∈ host.timer.deleted
  · rw [fire_of_deleted hlive]
    exact hunmap
  · rw [fire_of_live hlive, call_eq]
    exact run_invariant_of_forall hstep (by exact hunmap) _

/-! ## The whole check -/

/-- What a check does in a state between two steps. -/
structure FiresExactly (host : TimerHost) (now : Time) (script : List (List TimerOp)) : Prop where
  fired : firedIds (host.step (.check now script)).trace =
    firedIds host.trace ++ (entered [] (host.timer.due now) script).map TimerNode.id
  ordered : (host.timer.due now).Pairwise fun first second ↦ first.expireTime ≤ second.expireTime
  once : ((host.timer.due now).map TimerNode.id).Nodup
  gone : ∀ node ∈ host.timer.due now, node ∉ (host.step (.check now script)).timer.timerSet

theorem Coherent.firesExactly (h : host.Coherent []) (now : Time) (script : List (List TimerOp)) :
    FiresExactly host now script := by
  have hscan := h.timer.scan_eq_due now
  have hscanned := h.scanned now script
  have hstep : host.step (.check now script) =
      run TimerHost.fire (host.scanned now script) (host.timer.due now) := by
    rw [← hscan]
    rfl
  rw [hscan] at hscanned
  refine ⟨?_, h.timer.due_sorted now, h.timer.due_nodup now, ?_⟩
  · rw [hstep]
    refine firedIds_run_fire (fun node hnode ↦ ?_) hscanned.one_each fun node hnode ↦
      hscanned.callback node (List.mem_append_right _ hnode)
    have hmem := List.mem_append_right (host.scanned now script).timer.timerSet hnode
    have hlive := (TcpTimer.mem_due.mp hnode).2.1
    refine ⟨hscanned.timer.fresh node hmem, fun fd other hlookup hid ↦ ?_,
      fun _ ↦ ⟨hscanned.timer.mapped node hmem hlive, hlive⟩, by simp⟩
    obtain ⟨hfd, hother, -⟩ := hscanned.timer.live fd other hlookup
    rw [← hfd, hscanned.timer.eq_of_id_eq hother hmem hid]
  · intro node hnode
    have hmem := List.mem_append_right (host.scanned now script).timer.timerSet hnode
    have hleft : Left (host.scanned now script).timer node := by
      refine ⟨hscanned.timer.fresh node hmem, fun hset ↦ ?_⟩
      have hnodup := hscanned.timer.nodup.of_map
      exact (List.disjoint_of_nodup_append hnodup) hset hnode
    have hfire (state : TimerHost) (other : TimerNode ℕ) (hleft : Left state.timer node) :
        Left (state.fire other).timer node := hleft.fire other
    rw [hstep]
    exact (run_invariant_of_forall hfire hleft _).notMem

/-- In every state that calls of `addTimer` and `removeTimer` lead to, a check enters the callbacks of
exactly the live expired nodes that no earlier callback of the check has removed or replaced, each
once and in the order of their deadlines, and none of the live expired nodes stays in the set. -/
theorem check_fires_exactly (ops : List TimerOp) (now : Time) (script : List (List TimerOp)) :
    FiresExactly (ops.foldl TimerHost.perform new) now script :=
  (coherent_new.foldl_perform ops).firesExactly now script

end TimerHost

end WebServer
