import WebServer.Foundation.Execution
import WebServer.Loop.TcpTimer

/-!
# Histories of a timer with re-entrant callbacks

A host calls `addTimer`, `removeTimer` and `checkExpired` in any order, and a fired callback may call
the first two for any descriptors. What the callbacks of a check do is an input of the check. The
callback of a node is the number of the `addTimer` call that made it.

`checkExpired` takes the expired nodes out of the set first, and takes the descriptor of each of them
out of the map when its turn comes. If a callback has meanwhile given the descriptor of a waiting node
a new timer, that turn takes the new node out of the map, and `removeTimer` does not find it any more.
-/

namespace WebServer

open Execution

/-- A call that a host or a callback makes. -/
inductive TimerOp where
  | add (now : Time) (fd : ℕ) (timeout : ℤ)
  | remove (fd : ℕ)

/-- A call from outside; `script` holds what the callbacks fired by a check do, in their order. -/
inductive TimerInput where
  | op (op : TimerOp)
  | check (now : Time) (script : List (List TimerOp))

/-- What has happened, at the moment a call returns or a callback is entered. -/
inductive TimerEvent where
  | added (id fd : ℕ)
  | removed (fd : ℕ)
  | fired (id : ℕ)
  deriving DecidableEq

structure TimerHost where
  timer : TcpTimer ℕ
  script : List (List TimerOp)
  trace : List TimerEvent

/-- The descriptor a call is about. -/
def TimerOp.fd : TimerOp → ℕ
  | add _ fd _ => fd
  | remove fd => fd

namespace TimerHost

def new : TimerHost := ⟨.new, [], []⟩

def setTimer (host : TimerHost) (timer : TcpTimer ℕ) : TimerHost := { host with timer := timer }

def emit (host : TimerHost) (event : TimerEvent) : TimerHost :=
  { host with trace := host.trace ++ [event] }

def perform (host : TimerHost) : TimerOp → TimerHost
  | .add now fd timeout =>
    (host.setTimer (host.timer.addTimer now fd timeout host.timer.nextId)).emit
      (.added host.timer.nextId fd)
  | .remove fd => (host.setTimer (host.timer.removeTimer fd)).emit (.removed fd)

/-- A callback runs the next part of the script. -/
def call (callback : ℕ) (host : TimerHost) : TimerHost :=
  let host := host.emit (.fired callback)
  match host.script with
  | [] => host
  | ops :: script => ops.foldl perform { host with script := script }

/-- The turn of one expired node. -/
abbrev fire : TimerHost → TimerNode ℕ → TimerHost := TcpTimer.fire timer setTimer call

def step (host : TimerHost) : TimerInput → TimerHost
  | .op op => host.perform op
  | .check now script => TcpTimer.checkExpired timer setTimer call now { host with script := script }

/-! ## The property and the condition -/

/-- The live nodes of the set are exactly the nodes of the map, one for each descriptor. -/
structure InStep (timer : TcpTimer ℕ) : Prop where
  live_iff : ∀ node, (node ∈ timer.timerSet ∧ timer.isDeleted node = false) ↔
    ∃ fd, timer.timerMap.lookup fd = some node
  one_each : ((timer.timerSet.filter fun node ↦ ¬ timer.isDeleted node).map TimerNode.fd).Nodup

/-- The timer that a call of `addTimer` made was removed. -/
def Cancelled (trace : List TimerEvent) (id : ℕ) : Prop :=
  ∃ before fd after, trace = before ++ .removed fd :: after ∧ .added id fd ∈ before

/-- No callback is fired behind a removal of its descriptor. -/
def NoneCancelledFires (trace : List TimerEvent) : Prop :=
  ∀ before id after, trace = before ++ .fired id :: after → ¬ Cancelled before id

/-- After the step the two containers agree, and no removed timer has fired. -/
def AgreesAfter (host : TimerHost) (input : TimerInput) : Prop :=
  InStep (host.step input).timer ∧ NoneCancelledFires (host.step input).trace

/-- The last call for a descriptor. -/
def lastOn (fd : ℕ) (ops : List TimerOp) : Option TimerOp :=
  (ops.filter fun op ↦ op.fd = fd).getLast?

/-- No waiting descriptor of a batch has been given a new timer when its turn comes. `ops` are the
calls made so far by the callbacks of the batch; the callback of a node is fired unless one of these
calls is for its descriptor. -/
def NoneRefreshed (ops : List TimerOp) : List ℕ → List (List TimerOp) → Prop
  | [], _ => True
  | fd :: fds, script =>
    match lastOn fd ops with
    | some (.add ..) => False
    | some (.remove _) => NoneRefreshed ops fds script
    | none => NoneRefreshed (ops ++ script.headD []) fds script.tail

/-- The callbacks of a check leave no new timer for a descriptor whose expired node is waiting. -/
def LeavesWaiting (host : TimerHost) : TimerInput → Prop
  | .op _ => True
  | .check now script =>
    NoneRefreshed [] ((host.timer.scan now host.timer.timerSet).1.map TimerNode.fd) script

/-- The map holds no other node for the descriptor of an expired node when its turn comes. -/
def Undisturbed (host : TimerHost) (node : TimerNode ℕ) : Prop :=
  ∀ other, host.timer.timerMap.lookup node.fd = some other → other = node

/-- The host at the beginning of the turns of a check, and the nodes that have one. -/
def scanned (host : TimerHost) (now : Time) (script : List (List TimerOp)) : TimerHost :=
  ⟨{ host.timer with timerSet := (host.timer.scan now host.timer.timerSet).2 }, script, host.trace⟩

/-- Every turn of a check finds its own node in the map, or none. -/
def NoneDisturbed (host : TimerHost) : TimerInput → Prop
  | .op _ => True
  | .check now script => Always fire Undisturbed (host.scanned now script)
      (host.timer.scan now host.timer.timerSet).1

/-! ## Traces -/

section Traces

variable {trace : List TimerEvent} {event : TimerEvent} {id : ℕ}

theorem cancelled_concat : Cancelled (trace ++ [event]) id ↔
    Cancelled trace id ∨ ∃ fd, event = .removed fd ∧ .added id fd ∈ trace := by
  constructor
  · rintro ⟨before, fd, after, htrace, hadded⟩
    rcases List.eq_nil_or_concat' after with rfl | ⟨after, last, rfl⟩
    · obtain ⟨rfl, hlast⟩ := List.append_inj' htrace rfl
      exact .inr ⟨fd, (List.cons.inj hlast).1, hadded⟩
    · rw [← List.cons_append, ← List.append_assoc] at htrace
      exact .inl ⟨before, fd, after, (List.append_inj' htrace rfl).1, hadded⟩
  · rintro (⟨before, fd, after, rfl, hadded⟩ | ⟨fd, rfl, hadded⟩)
    · exact ⟨before, fd, after ++ [event], by simp, hadded⟩
    · exact ⟨trace, fd, [], rfl, hadded⟩

theorem Cancelled.added (h : Cancelled trace id) : ∃ fd, .added id fd ∈ trace := by
  obtain ⟨before, fd, after, rfl, hadded⟩ := h
  exact ⟨fd, List.mem_append_left _ hadded⟩

theorem noneCancelledFires_concat : NoneCancelledFires (trace ++ [event]) ↔
    NoneCancelledFires trace ∧ ∀ id, event = .fired id → ¬ Cancelled trace id := by
  constructor
  · intro h
    refine ⟨fun before id after htrace ↦ ?_, fun id hevent ↦ h trace id [] (by rw [hevent])⟩
    exact h before id (after ++ [event]) (by rw [htrace]; simp)
  · rintro ⟨hold, hnew⟩ before id after htrace
    rcases List.eq_nil_or_concat' after with rfl | ⟨after, last, rfl⟩
    · obtain ⟨rfl, hlast⟩ := List.append_inj' htrace rfl
      exact hnew id (List.cons.inj hlast).1
    · rw [← List.cons_append, ← List.append_assoc] at htrace
      exact hold before id after (List.append_inj' htrace rfl).1

end Traces

/-! ## The invariant -/

/-- What holds between the turns of a check, while `pending` are the nodes still to come. -/
structure Coherent (host : TimerHost) (pending : List (TimerNode ℕ)) : Prop where
  timer : host.timer.Agrees pending
  one_each : (pending.map TimerNode.fd).Nodup
  callback : ∀ node ∈ host.timer.timerSet ++ pending, node.callback = node.id
  added_fd : ∀ node ∈ host.timer.timerSet ++ pending, ∀ fd,
    .added node.id fd ∈ host.trace → fd = node.fd
  added_lt : ∀ id fd, .added id fd ∈ host.trace → id < host.timer.nextId
  not_cancelled : ∀ node ∈ host.timer.timerSet ++ pending, node.id ∉ host.timer.deleted →
    ¬ Cancelled host.trace node.id
  none_cancelled_fires : NoneCancelledFires host.trace

variable {host : TimerHost} {node : TimerNode ℕ} {pending : List (TimerNode ℕ)}

theorem coherent_new : new.Coherent [] where
  timer := TcpTimer.agrees_new
  one_each := List.nodup_nil
  callback := by simp [new, TcpTimer.new]
  added_fd := by simp [new, TcpTimer.new]
  added_lt := by simp [new]
  not_cancelled := by simp [new, TcpTimer.new]
  none_cancelled_fires before id after htrace := absurd htrace (by simp [new])

theorem Coherent.add (h : host.Coherent pending) (now : Time) (fd : ℕ) (timeout : ℤ) :
    (host.perform (.add now fd timeout)).Coherent pending := by
  have hmem {other : TimerNode ℕ}
      (hother : other ∈ (host.timer.addTimer now fd timeout host.timer.nextId).timerSet ++ pending) :
      other = ⟨host.timer.nextId, fd, now + Time.milliseconds timeout, host.timer.nextId⟩ ∨
        other ∈ host.timer.timerSet ++ pending := by
    rw [List.mem_append, TcpTimer.mem_timerSet_addTimer, or_assoc, ← List.mem_append] at hother
    exact hother
  refine ⟨h.timer.addTimer .., h.one_each, ?_, ?_, ?_, ?_, ?_⟩
  · intro other hother
    rcases hmem hother with rfl | hold
    · rfl
    · exact h.callback other hold
  · intro other hother fd' hadded
    rcases List.mem_append.mp hadded with hadded | hadded
    · rcases hmem hother with rfl | hold
      · exact absurd (h.added_lt _ _ hadded) (Nat.lt_irrefl _)
      · exact h.added_fd other hold fd' hadded
    · obtain ⟨hid, rfl⟩ := TimerEvent.added.inj (List.mem_singleton.mp hadded)
      rcases hmem hother with rfl | hold
      · rfl
      · exact absurd (hid ▸ h.timer.fresh other hold) (Nat.lt_irrefl _)
  · intro id fd' hadded
    rcases List.mem_append.mp hadded with hadded | hadded
    · exact Nat.lt_succ_of_lt (h.added_lt id fd' hadded)
    · obtain ⟨rfl, -⟩ := TimerEvent.added.inj (List.mem_singleton.mp hadded)
      exact Nat.lt_succ_self _
  · intro other hother hlive hcancelled
    rcases cancelled_concat.mp hcancelled with hcancelled | ⟨_, hfalse, _⟩
    · rcases hmem hother with rfl | hold
      · obtain ⟨fd', hadded⟩ := hcancelled.added
        exact absurd (h.added_lt _ _ hadded) (Nat.lt_irrefl _)
      · exact h.not_cancelled other hold
          (fun hmark ↦ hlive (TcpTimer.mem_deleted_addTimer.mpr (.inl hmark))) hcancelled
    · exact absurd hfalse (by simp)
  · exact noneCancelledFires_concat.mpr ⟨h.none_cancelled_fires, fun id hfalse ↦
      absurd hfalse (by simp)⟩

theorem Coherent.remove (h : host.Coherent pending) (fd : ℕ) :
    (host.perform (.remove fd)).Coherent pending := by
  have htimer := h.timer.removeTimer fd
  have hset : (host.timer.removeTimer fd).timerSet = host.timer.timerSet := by
    unfold TcpTimer.removeTimer
    split <;> rfl
  have hnext := TcpTimer.nextId_removeTimer host.timer fd
  have hmarks {id : ℕ} (hmark : id ∈ host.timer.deleted) :
      id ∈ (host.timer.removeTimer fd).deleted := by
    unfold TcpTimer.removeTimer
    split
    · exact List.mem_cons_of_mem _ hmark
    · exact hmark
  have hold {other : TimerNode ℕ}
      (hother : other ∈ (host.timer.removeTimer fd).timerSet ++ pending) :
      other ∈ host.timer.timerSet ++ pending := hset ▸ hother
  refine ⟨htimer, h.one_each, fun other hother ↦ h.callback other (hold hother), ?_, ?_, ?_, ?_⟩
  · intro other hother fd' hadded
    rcases List.mem_append.mp hadded with hadded | hadded
    · exact h.added_fd other (hold hother) fd' hadded
    · exact absurd (List.mem_singleton.mp hadded) (by simp)
  · intro id fd' hadded
    refine Nat.lt_of_lt_of_eq ?_ hnext.symm
    rcases List.mem_append.mp hadded with hadded | hadded
    · exact h.added_lt id fd' hadded
    · exact absurd (List.mem_singleton.mp hadded) (by simp)
  · intro other hother hlive hcancelled
    rcases cancelled_concat.mp hcancelled with hcancelled | ⟨fd', hevent, hadded⟩
    · exact h.not_cancelled other (hold hother) (fun hmark ↦ hlive (hmarks hmark)) hcancelled
    · -- a live node is in the map, which has no entry for the removed descriptor
      obtain rfl := TimerEvent.removed.inj hevent
      have hlookup := htimer.mapped other hother hlive
      rw [← h.added_fd other (hold hother) fd hadded, TcpTimer.timerMap_removeTimer,
        AList.lookup_erase] at hlookup
      exact absurd hlookup (by simp)
  · exact noneCancelledFires_concat.mpr ⟨h.none_cancelled_fires, fun id hfalse ↦
      absurd hfalse (by simp)⟩

theorem Coherent.perform (h : host.Coherent pending) (op : TimerOp) :
    (host.perform op).Coherent pending := by
  cases op with
  | add now fd timeout => exact h.add now fd timeout
  | remove fd => exact h.remove fd

theorem Coherent.foldl_perform (h : host.Coherent pending) (ops : List TimerOp) :
    (ops.foldl TimerHost.perform host).Coherent pending := by
  induction ops generalizing host with
  | nil => exact h
  | cons op ops ih => exact ih (h.perform op)

/-- A callback that was not cancelled is entered, and does what it does. -/
theorem Coherent.call (h : host.Coherent pending) {callback : ℕ}
    (hcancelled : ¬ Cancelled host.trace callback) : (host.call callback).Coherent pending := by
  have hemit : (host.emit (.fired callback)).Coherent pending := by
    refine ⟨h.timer, h.one_each, h.callback, ?_, ?_, ?_, ?_⟩
    · intro other hother fd hadded
      rcases List.mem_append.mp hadded with hadded | hadded
      · exact h.added_fd other hother fd hadded
      · exact absurd (List.mem_singleton.mp hadded) (by simp)
    · intro id fd hadded
      rcases List.mem_append.mp hadded with hadded | hadded
      · exact h.added_lt id fd hadded
      · exact absurd (List.mem_singleton.mp hadded) (by simp)
    · intro other hother hlive hfired
      rcases cancelled_concat.mp hfired with hold | ⟨_, hfalse, _⟩
      · exact h.not_cancelled other hother hlive hold
      · exact absurd hfalse (by simp)
    · refine noneCancelledFires_concat.mpr ⟨h.none_cancelled_fires, fun id hevent ↦ ?_⟩
      exact TimerEvent.fired.inj hevent ▸ hcancelled
  unfold TimerHost.call
  dsimp only
  split
  · exact hemit
  · rename_i ops script _
    have hscript : Coherent { host.emit (.fired callback) with script := script } pending :=
      ⟨hemit.timer, hemit.one_each, hemit.callback, hemit.added_fd, hemit.added_lt,
        hemit.not_cancelled, hemit.none_cancelled_fires⟩
    exact hscript.foldl_perform ops

theorem fire_of_deleted (h : node.id ∈ host.timer.deleted) :
    host.fire node = host.setTimer (host.timer.unmap node.fd) :=
  if_pos (decide_eq_true h)

theorem fire_of_live (h : node.id ∉ host.timer.deleted) :
    host.fire node = (host.setTimer (host.timer.unmap node.fd)).call node.callback :=
  if_neg (Bool.not_eq_true _ ▸ decide_eq_false h)

/-- A turn that finds its own node in the map, or none, keeps the invariant. -/
theorem Coherent.fire (h : host.Coherent (node :: pending)) (hturn : Undisturbed host node) :
    (fire host node).Coherent pending := by
  have hmem {other : TimerNode ℕ} (hother : other ∈ host.timer.timerSet ++ pending) :
      other ∈ host.timer.timerSet ++ node :: pending := by
    rw [List.perm_middle.mem_iff]
    exact List.mem_cons_of_mem _ hother
  have hnode : node ∈ host.timer.timerSet ++ node :: pending := by simp
  have hunmap (htimer : (host.timer.unmap node.fd).Agrees pending) :
      (host.setTimer (host.timer.unmap node.fd)).Coherent pending :=
    ⟨htimer, (List.nodup_cons.mp h.one_each).2, fun other hother ↦ h.callback other (hmem hother),
      fun other hother ↦ h.added_fd other (hmem hother), h.added_lt,
      fun other hother ↦ h.not_cancelled other (hmem hother), h.none_cancelled_fires⟩
  by_cases hlive : node.id ∈ host.timer.deleted
  · have hnone : host.timer.timerMap.lookup node.fd = none := by
      cases hlookup : host.timer.timerMap.lookup node.fd with
      | none => rfl
      | some other =>
        obtain rfl := hturn other hlookup
        exact absurd hlive (h.timer.live _ _ hlookup).2.2
    rw [fire_of_deleted hlive]
    exact hunmap (h.timer.unmap_of_none hnone)
  · rw [fire_of_live hlive]
    refine (hunmap (h.timer.unmap hlive)).call ?_
    rw [h.callback node hnode]
    exact h.not_cancelled node hnode hlive

/-- The expired nodes of a scan are live, so they have different descriptors. -/
theorem Coherent.scanned (h : host.Coherent []) (now : Time) (script : List (List TimerOp)) :
    (host.scanned now script).Coherent (host.timer.scan now host.timer.timerSet).1 := by
  have htimer := h.timer.scan now
  obtain ⟨hexpired, hsubperm, -, -⟩ := TcpTimer.scan_spec host.timer now host.timer.timerSet
  have hmem {other : TimerNode ℕ} (hother : other ∈ (host.timer.scan now host.timer.timerSet).2 ++
      (host.timer.scan now host.timer.timerSet).1) : other ∈ host.timer.timerSet ++ [] :=
    List.mem_append_left _ (hsubperm.subset hother)
  have hmapped : ∀ node ∈ (host.timer.scan now host.timer.timerSet).1,
      host.timer.timerMap.lookup node.fd = some node := fun node hnode ↦
    h.timer.mapped node (hmem (List.mem_append_right _ hnode)) (hexpired node hnode).1
  refine ⟨htimer, ?_, fun other hother ↦ h.callback other (hmem hother),
    fun other hother ↦ h.added_fd other (hmem hother), h.added_lt,
    fun other hother ↦ h.not_cancelled other (hmem hother), h.none_cancelled_fires⟩
  exact TcpTimer.nodup_fd_of_mapped (List.nodup_append.mp htimer.nodup.of_map).2.1 hmapped

/-- The turns of a check, as long as each of them finds its own node or none. -/
theorem Coherent.run_fire (h : host.Coherent pending)
    (hturns : Always TimerHost.fire Undisturbed host pending) :
    (run TimerHost.fire host pending).Coherent [] := by
  induction pending generalizing host with
  | nil => exact h
  | cons node pending ih => exact ih (h.fire hturns.1) hturns.2

theorem Coherent.step (h : host.Coherent []) {input : TimerInput}
    (hturns : NoneDisturbed host input) : (host.step input).Coherent [] := by
  cases input with
  | op op => exact h.perform op
  | check now script => exact (h.scanned now script).run_fire hturns

theorem Coherent.inStep (h : host.Coherent []) : InStep host.timer where
  live_iff node := by
    constructor
    · rintro ⟨hmem, hlive⟩
      exact ⟨node.fd, h.timer.mapped node (List.mem_append_left _ hmem) (of_decide_eq_false hlive)⟩
    · rintro ⟨fd, hlookup⟩
      obtain ⟨-, hmem, hlive⟩ := h.timer.live fd node hlookup
      exact ⟨by simpa using hmem, decide_eq_false hlive⟩
  one_each := by
    have hnodup := h.timer.nodup
    rw [List.append_nil] at hnodup
    have hmapped : ∀ node ∈ host.timer.timerSet.filter (fun node ↦ ¬ host.timer.isDeleted node),
        host.timer.timerMap.lookup node.fd = some node := by
      intro node hnode
      obtain ⟨hmem, hlive⟩ := List.mem_filter.mp hnode
      refine h.timer.mapped node (List.mem_append_left _ hmem) ?_
      simpa [TcpTimer.isDeleted] using hlive
    exact TcpTimer.nodup_fd_of_mapped (hnodup.of_map.filter _) hmapped

/-! ## The turns of a check and its script -/

theorem lastOn_concat_of_eq (ops : List TimerOp) {op : TimerOp} {fd : ℕ} (h : op.fd = fd) :
    lastOn fd (ops ++ [op]) = some op := by
  simp [lastOn, h]

theorem lastOn_concat_of_ne (ops : List TimerOp) {op : TimerOp} {fd : ℕ} (h : op.fd ≠ fd) :
    lastOn fd (ops ++ [op]) = lastOn fd ops := by
  simp [lastOn, h]

/-- What the map holds for the descriptor of a waiting node, from the calls the callbacks made. -/
def Tells (timer : TcpTimer ℕ) (ops : List TimerOp) (node : TimerNode ℕ) : Prop :=
  match lastOn node.fd ops with
  | none => timer.timerMap.lookup node.fd = some node
  | some (.remove _) => timer.timerMap.lookup node.fd = none
  | some (.add ..) => ∃ other, timer.timerMap.lookup node.fd = some other ∧ other ≠ node

variable {ops : List TimerOp}

theorem Tells.of_lookup_eq {timer timer' : TcpTimer ℕ} (h : Tells timer ops node)
    (hlookup : timer'.timerMap.lookup node.fd = timer.timerMap.lookup node.fd) :
    Tells timer' ops node := by
  unfold Tells at h ⊢
  rwa [hlookup]

theorem Tells.perform (h : Tells host.timer ops node) (hfresh : node.id < host.timer.nextId)
    (op : TimerOp) : Tells (host.perform op).timer (ops ++ [op]) node := by
  by_cases hfd : op.fd = node.fd
  · unfold Tells
    rw [lastOn_concat_of_eq ops hfd]
    cases op with
    | add now fd timeout =>
      obtain rfl : fd = node.fd := hfd
      refine ⟨_, AList.lookup_insert .., fun heq ↦ ?_⟩
      exact Nat.ne_of_lt hfresh (congrArg TimerNode.id heq).symm
    | remove fd =>
      obtain rfl : fd = node.fd := hfd
      change (host.timer.removeTimer node.fd).timerMap.lookup node.fd = none
      rw [TcpTimer.timerMap_removeTimer, AList.lookup_erase]
  · unfold Tells
    rw [lastOn_concat_of_ne ops hfd]
    refine h.of_lookup_eq ?_
    cases op with
    | add now fd timeout => exact AList.lookup_insert_ne (Ne.symm hfd)
    | remove fd =>
      change (host.timer.removeTimer fd).timerMap.lookup node.fd = _
      rw [TcpTimer.timerMap_removeTimer]
      exact AList.lookup_erase_ne (Ne.symm hfd)

theorem Tells.foldl_perform (h : Tells host.timer ops node) (hfresh : node.id < host.timer.nextId)
    (calls : List TimerOp) :
    Tells (calls.foldl TimerHost.perform host).timer (ops ++ calls) node := by
  induction calls generalizing host ops with
  | nil => rwa [List.append_nil]
  | cons op calls ih =>
    have hnext : node.id < (host.perform op).timer.nextId := by
      cases op with
      | add now fd timeout => exact Nat.lt_succ_of_lt hfresh
      | remove fd => exact Nat.lt_of_lt_of_eq hfresh (TcpTimer.nextId_removeTimer _ fd).symm
    rw [List.append_cons]
    exact ih (h.perform hfresh op) hnext

/-- A fired callback makes the calls of the next part of the script. -/
theorem Tells.call (h : Tells host.timer ops node) (hfresh : node.id < host.timer.nextId)
    (callback : ℕ) : Tells (host.call callback).timer (ops ++ host.script.headD []) node := by
  unfold TimerHost.call
  change Tells (match host.script with | [] => _ | ops :: script => _ : TimerHost).timer _ node
  cases host.script with
  | nil =>
    rw [List.headD_nil, List.append_nil]
    exact h
  | cons calls script =>
    have hscript : Tells { host.emit (.fired callback) with script := script }.timer ops node := h
    exact hscript.foldl_perform hfresh calls

theorem script_foldl_perform (host : TimerHost) (calls : List TimerOp) :
    (calls.foldl perform host).script = host.script := by
  induction calls generalizing host with
  | nil => rfl
  | cons op calls ih =>
    refine (ih (host.perform op)).trans ?_
    cases op <;> rfl

theorem script_call (host : TimerHost) (callback : ℕ) :
    (host.call callback).script = host.script.tail := by
  unfold call
  dsimp only [emit]
  split
  · rename_i hscript
    simp [hscript]
  · rename_i calls script hscript
    rw [script_foldl_perform, hscript]
    rfl

/-- The turns of a batch find their own nodes or none just if no waiting descriptor was given a new
timer. -/
theorem Coherent.always_undisturbed_iff (h : host.Coherent pending)
    (htells : ∀ node ∈ pending, Tells host.timer ops node) :
    Always TimerHost.fire Undisturbed host pending ↔
      NoneRefreshed ops (pending.map TimerNode.fd) host.script := by
  induction pending generalizing host ops with
  | nil => rfl
  | cons first pending ih =>
    obtain ⟨hfirst, hrest⟩ := List.forall_mem_cons.mp htells
    have hother : ∀ node ∈ pending, Tells (host.timer.unmap first.fd) ops node := by
      intro node hnode
      refine (hrest node hnode).of_lookup_eq (AList.lookup_erase_ne fun hfd ↦ ?_)
      exact (List.nodup_cons.mp h.one_each).1 (List.mem_map.mpr ⟨node, hnode, hfd⟩)
    have hfresh : ∀ node ∈ pending, node.id < host.timer.nextId := fun node hnode ↦
      h.timer.fresh node (List.mem_append_right _ (List.mem_cons_of_mem _ hnode))
    unfold Tells at hfirst
    unfold Always
    rw [List.map_cons, NoneRefreshed]
    split at hfirst
    · rename_i hlast
      have hturn : Undisturbed host first := fun other hlookup ↦
        (Option.some.inj (hlookup.symm.trans hfirst))
      have hlive := (h.timer.live _ _ hfirst).2.2
      have hnext : ∀ node ∈ pending,
          Tells (host.fire first).timer (ops ++ host.script.headD []) node := by
        intro node hnode
        have hunmap : Tells (host.setTimer (host.timer.unmap first.fd)).timer ops node :=
          hother node hnode
        rw [fire_of_live hlive]
        exact hunmap.call (hfresh node hnode) _
      have hscript : (host.fire first).script = host.script.tail := by
        rw [fire_of_live hlive, script_call]
        rfl
      rw [hlast, and_iff_right hturn, ih (h.fire hturn) hnext, hscript]
    · rename_i hlast
      have hturn : Undisturbed host first := fun other hlookup ↦
        absurd (hlookup.symm.trans hfirst) (by simp)
      have hdeleted : first.id ∈ host.timer.deleted := by
        by_contra hlive
        have hlookup := h.timer.mapped first (by simp) hlive
        exact absurd (hlookup.symm.trans hfirst) (by simp)
      have hnext : ∀ node ∈ pending, Tells (host.fire first).timer ops node := by
        rw [fire_of_deleted hdeleted]
        exact hother
      have hscript : (host.fire first).script = host.script := by
        rw [fire_of_deleted hdeleted]
        rfl
      rw [hlast, and_iff_right hturn, ih (h.fire hturn) hnext, hscript]
    · rename_i hlast
      obtain ⟨other, hlookup, hne⟩ := hfirst
      rw [hlast]
      exact iff_of_false (fun hturns ↦ hne (hturns.1 other hlookup)) id

/-! ## A lost node -/

/-- A live node of the set that the map has lost: no call can find it. -/
structure Lost (timer : TcpTimer ℕ) (node : TimerNode ℕ) : Prop where
  mem : node ∈ timer.timerSet
  live : node.id ∉ timer.deleted
  fresh : node.id < timer.nextId
  unmapped : ∀ fd other, timer.timerMap.lookup fd = some other → other.id ≠ node.id

section Lost

variable {timer : TcpTimer ℕ}

theorem Lost.not_inStep (h : Lost timer node) : ¬ InStep timer := by
  intro hinStep
  obtain ⟨fd, hlookup⟩ := (hinStep.live_iff node).mp ⟨h.mem, decide_eq_false h.live⟩
  exact h.unmapped fd node hlookup rfl

theorem Lost.addTimer (h : Lost timer node) (now : Time) (fd : ℕ) (timeout : ℤ) (callback : ℕ) :
    Lost (timer.addTimer now fd timeout callback) node := by
  refine ⟨TcpTimer.mem_timerSet_addTimer.mpr (.inr h.mem), fun hmark ↦ ?_,
    Nat.lt_succ_of_lt h.fresh, fun fd' other hlookup ↦ ?_⟩
  · rcases TcpTimer.mem_deleted_addTimer.mp hmark with hmark | ⟨other, hlookup, hid⟩
    · exact h.live hmark
    · exact h.unmapped fd other hlookup hid
  · change AList.lookup fd' (timer.timerMap.insert fd _) = some other at hlookup
    by_cases hfd : fd' = fd
    · rw [hfd, AList.lookup_insert] at hlookup
      obtain rfl := Option.some.inj hlookup
      exact Nat.ne_of_gt h.fresh
    · rw [AList.lookup_insert_ne hfd] at hlookup
      exact h.unmapped fd' other hlookup

theorem Lost.erase (h : Lost timer node) {fd fd' : ℕ} {other : TimerNode ℕ}
    (hlookup : (timer.timerMap.erase fd).lookup fd' = some other) : other.id ≠ node.id := by
  by_cases hfd : fd' = fd
  · rw [hfd, AList.lookup_erase] at hlookup
    exact absurd hlookup (by simp)
  · rw [AList.lookup_erase_ne hfd] at hlookup
    exact h.unmapped fd' other hlookup

theorem Lost.removeTimer (h : Lost timer node) (fd : ℕ) : Lost (timer.removeTimer fd) node := by
  unfold TcpTimer.removeTimer
  cases hlookup : timer.timerMap.lookup fd with
  | none => exact h
  | some other =>
    refine ⟨h.mem, ?_, h.fresh, fun _ _ ↦ h.erase⟩
    exact List.not_mem_cons_of_ne_of_not_mem (h.unmapped fd other hlookup).symm h.live

theorem Lost.unmap (h : Lost timer node) (fd : ℕ) : Lost (timer.unmap fd) node :=
  ⟨h.mem, h.live, h.fresh, fun _ _ ↦ h.erase⟩

end Lost

theorem Lost.perform (h : Lost host.timer node) (op : TimerOp) : Lost (host.perform op).timer node := by
  cases op with
  | add now fd timeout => exact h.addTimer ..
  | remove fd => exact h.removeTimer fd

theorem Lost.call (h : Lost host.timer node) (callback : ℕ) :
    Lost (host.call callback).timer node := by
  have hops (host : TimerHost) (ops : List TimerOp) (h : Lost host.timer node) :
      Lost (ops.foldl TimerHost.perform host).timer node := by
    induction ops generalizing host with
    | nil => exact h
    | cons op ops ih => exact ih _ (h.perform op)
  unfold TimerHost.call
  dsimp only
  split
  · exact h
  · exact hops _ _ h

theorem Lost.fire (h : Lost host.timer node) (other : TimerNode ℕ) :
    Lost (host.fire other).timer node := by
  by_cases hlive : other.id ∈ host.timer.deleted
  · rw [fire_of_deleted hlive]
    exact h.unmap other.fd
  · rw [fire_of_live hlive]
    have hunmap : Lost (host.setTimer (host.timer.unmap other.fd)).timer node := h.unmap other.fd
    exact hunmap.call _

/-- A turn that finds another node takes it out of the map for good. -/
theorem Coherent.lost_of_disturbed (h : host.Coherent (node :: pending))
    (hturn : ¬ Undisturbed host node) : ∃ other, Lost (host.fire node).timer other := by
  obtain ⟨other, hturn⟩ := not_forall.mp hturn
  obtain ⟨hlookup, hne⟩ := Classical.not_imp.mp hturn
  obtain ⟨hfd, hmem, hlive⟩ := h.timer.live node.fd other hlookup
  have hset : other ∈ host.timer.timerSet := by
    rcases List.mem_append.mp hmem with hset | hpending
    · exact hset
    · have hother := (List.mem_cons.mp hpending).resolve_left hne
      have hwaiting : node.fd ∈ pending.map TimerNode.fd := List.mem_map.mpr ⟨other, hother, hfd⟩
      exact absurd hwaiting (List.nodup_cons.mp h.one_each).1
  have hlost : Lost (host.timer.unmap node.fd) other := by
    refine ⟨hset, hlive, h.timer.fresh other hmem, fun fd next hnext hid ↦ ?_⟩
    change AList.lookup fd (host.timer.timerMap.erase node.fd) = some next at hnext
    by_cases hfd' : fd = node.fd
    · rw [hfd', AList.lookup_erase] at hnext
      exact absurd hnext (by simp)
    · rw [AList.lookup_erase_ne hfd'] at hnext
      obtain ⟨hnextFd, hnextMem, -⟩ := h.timer.live fd next hnext
      rw [h.timer.eq_of_id_eq hnextMem hmem hid, hfd] at hnextFd
      exact hfd' hnextFd.symm
  refine ⟨other, ?_⟩
  by_cases hdeleted : node.id ∈ host.timer.deleted
  · rw [fire_of_deleted hdeleted]
    exact hlost
  · rw [fire_of_live hdeleted]
    have hunmap : Lost (host.setTimer (host.timer.unmap node.fd)).timer other := hlost
    exact hunmap.call _

/-- A check in which some turn finds another node leaves a lost node behind. -/
theorem Coherent.lost_of_not_always (h : host.Coherent pending)
    (hturns : ¬ Always TimerHost.fire Undisturbed host pending) :
    ∃ other, Lost (run TimerHost.fire host pending).timer other := by
  induction pending generalizing host with
  | nil => exact absurd trivial hturns
  | cons first pending ih =>
    by_cases hturn : Undisturbed host first
    · exact ih (h.fire hturn) fun hrest ↦ hturns ⟨hturn, hrest⟩
    · obtain ⟨other, hlost⟩ := h.lost_of_disturbed hturn
      have hstep (state : TimerHost) (next : TimerNode ℕ) (hlost : Lost state.timer other) :
          Lost (state.fire next).timer other := hlost.fire next
      exact ⟨other, run_invariant_of_forall hstep hlost pending⟩

/-! ## Histories -/

/-- From a coherent state, a step leaves the containers in agreement just if no turn is disturbed. -/
theorem Coherent.agreesAfter_iff (h : host.Coherent []) (input : TimerInput) :
    AgreesAfter host input ↔ NoneDisturbed host input := by
  constructor
  · rintro ⟨hinStep, -⟩
    by_contra hturns
    cases input with
    | op op => exact hturns trivial
    | check now script =>
      obtain ⟨other, hlost⟩ := (h.scanned now script).lost_of_not_always hturns
      exact hlost.not_inStep hinStep
  · intro hturns
    have hstep := h.step hturns
    exact ⟨hstep.inStep, hstep.none_cancelled_fires⟩

/-- The turns of a check are undisturbed just if its callbacks leave the waiting descriptors alone. -/
theorem Coherent.noneDisturbed_iff (h : host.Coherent []) (input : TimerInput) :
    NoneDisturbed host input ↔ LeavesWaiting host input := by
  cases input with
  | op op => rfl
  | check now script =>
    have hscanned := h.scanned now script
    obtain ⟨hexpired, -, -, -⟩ := TcpTimer.scan_spec host.timer now host.timer.timerSet
    refine hscanned.always_undisturbed_iff fun node hnode ↦ ?_
    exact hscanned.timer.mapped node (List.mem_append_right _ hnode) (hexpired node hnode).1

/-- In a history the set and the map agree after every call, and no removed timer fires, if and only if
no check has callbacks that leave a new timer for a descriptor whose expired node is waiting. -/
theorem agrees_iff_leaves_waiting (inputs : List TimerInput) :
    Always step AgreesAfter new inputs ↔ Always step LeavesWaiting new inputs :=
  always_congr_of_kept (fun host ↦ host.Coherent [])
    (fun _ input h hleaves ↦ h.step ((h.noneDisturbed_iff input).mpr hleaves))
    (fun _ input h ↦ (h.agreesAfter_iff input).trans (h.noneDisturbed_iff input))
    coherent_new inputs

/-- Two timers expire together, and the callback of the first refreshes the second; afterwards the
second is removed, and fires nevertheless. -/
def refreshHistory : List TimerInput :=
  [.op (.add 0 1 10), .op (.add 0 2 10), .check 20000000 [[.add 20000000 2 10]], .op (.remove 2),
    .check 40000000 []]

theorem removed_timer_fires :
    ¬ Always step AgreesAfter new refreshHistory ∧
      ¬ NoneCancelledFires (run step new refreshHistory).trace := by
  have htrace : (run step new refreshHistory).trace =
      [.added 0 1, .added 1 2, .fired 0, .added 2 2, .removed 2] ++ .fired 2 :: [] := by
    decide
  have hcancelled : Cancelled [.added 0 1, .added 1 2, .fired 0, .added 2 2, .removed 2] 2 :=
    ⟨[.added 0 1, .added 1 2, .fired 0, .added 2 2], 2, [], rfl, by simp⟩
  have hfires : ¬ NoneCancelledFires (run step new refreshHistory).trace :=
    fun h ↦ h _ 2 [] htrace hcancelled
  exact ⟨fun h ↦ hfires h.2.2.2.2.1.2, hfires⟩

end TimerHost

end WebServer
