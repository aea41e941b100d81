import Mathlib.Data.List.AList
import WebServer.Foundation.Clock

/-!
# The connection timers of a loop

`TcpTimer` keeps its nodes twice: ordered by expiry time, and by descriptor. A node that is removed
from the map stays in the ordered set with a mark and is dropped when a scan reaches it. Nodes are
shared objects in the source; here each has a number, and the marks are the list of the numbers of
the deleted nodes.

`TcpTimer.Agrees` is the invariant behind this: the live nodes are exactly the nodes of the map. It is
stated with a list of pending nodes, the ones a running `checkExpired` has taken out of the set and
not fired yet.
-/

namespace WebServer

structure TimerNode (κ : Type*) where
  id : ℕ
  fd : ℕ
  expireTime : Time
  callback : κ

structure TcpTimer (κ : Type*) where
  timerSet : List (TimerNode κ)
  timerMap : AList fun _ : ℕ ↦ TimerNode κ
  deleted : List ℕ
  nextId : ℕ

namespace TcpTimer

variable {κ : Type*}

def new : TcpTimer κ := ⟨[], ∅, [], 0⟩

def isDeleted (timer : TcpTimer κ) (node : TimerNode κ) : Bool := node.id ∈ timer.deleted

end TcpTimer

/-- The deadline of a node has passed. -/
def TimerNode.isExpired {κ : Type*} (node : TimerNode κ) (now : Time) : Bool :=
  node.expireTime < now

namespace TcpTimer

variable {κ : Type*}

/-- `std::multiset::insert`: behind the nodes that expire no later. -/
def insertNode (node : TimerNode κ) (timerSet : List (TimerNode κ)) : List (TimerNode κ) :=
  timerSet.takeWhile (fun other ↦ other.expireTime ≤ node.expireTime) ++
    node :: timerSet.dropWhile (fun other ↦ other.expireTime ≤ node.expireTime)

/-- Add or replace the timer of a descriptor; `now` is the clock in the constructor of the node. -/
def addTimer (timer : TcpTimer κ) (now : Time) (fd : ℕ) (timeout : ℤ) (callback : κ) :
    TcpTimer κ :=
  let deleted := match timer.timerMap.lookup fd with
    | some node => node.id :: timer.deleted
    | none => timer.deleted
  let node : TimerNode κ := ⟨timer.nextId, fd, now + Time.milliseconds timeout, callback⟩
  { timerSet := insertNode node timer.timerSet
    timerMap := timer.timerMap.insert fd node
    deleted := deleted
    nextId := timer.nextId + 1 }

def removeTimer (timer : TcpTimer κ) (fd : ℕ) : TcpTimer κ :=
  match timer.timerMap.lookup fd with
  | some node =>
    { timer with timerMap := timer.timerMap.erase fd, deleted := node.id :: timer.deleted }
  | none => timer

/-- The scan of `checkExpired`: the expired nodes, and the set without them and without the deleted
nodes before the first one that is left. With a clock that does not go back, asking it for every node
gives the result for the last reading. -/
def scan (timer : TcpTimer κ) (now : Time) :
    List (TimerNode κ) → List (TimerNode κ) × List (TimerNode κ)
  | [] => ([], [])
  | node :: nodes =>
    if timer.isDeleted node then timer.scan now nodes
    else if node.isExpired now then
      (node :: (timer.scan now nodes).1, (timer.scan now nodes).2)
    else ([], node :: nodes)

/-- The loop of `getNextTimeout`: the answer for the first node that is not deleted, in an `int`. -/
def nextTimeout (timer : TcpTimer κ) (now : Time) : List (TimerNode κ) → Int32
  | [] => -1
  | node :: nodes =>
    if timer.isDeleted node then timer.nextTimeout now nodes
    else if node.expireTime ≤ now then 0
    else
      let ms := Time.toMilliseconds (node.expireTime - now)
      if ms > 0 then Int32.ofInt ms else 0

def getNextTimeout (timer : TcpTimer κ) (now : Time) : Int32 :=
  timer.nextTimeout now timer.timerSet

/-- `_timerMap.erase(fd)`. -/
def unmap (timer : TcpTimer κ) (fd : ℕ) : TcpTimer κ :=
  { timer with timerMap := timer.timerMap.erase fd }

section Check

variable {σ : Type*} (get : σ → TcpTimer κ) (set : σ → TcpTimer κ → σ) (call : κ → σ → σ)

/-- What `checkExpired` does with one expired node; `call` runs a callback in a host that keeps the
timer at `get` and `set`. -/
def fire (state : σ) (node : TimerNode κ) : σ :=
  let state := set state ((get state).unmap node.fd)
  if (get state).isDeleted node then state else call node.callback state

def checkExpired (now : Time) (state : σ) : σ :=
  let timer := get state
  (timer.scan now timer.timerSet).1.foldl (fire get set call)
    (set state { timer with timerSet := (timer.scan now timer.timerSet).2 })

end Check

/-! ## The two views agree -/

/-- The live nodes in the set or pending are exactly the nodes of the map, each under its own
descriptor, and the set is ordered. -/
structure Agrees (timer : TcpTimer κ) (pending : List (TimerNode κ)) : Prop where
  nodup : ((timer.timerSet ++ pending).map TimerNode.id).Nodup
  fresh : ∀ node ∈ timer.timerSet ++ pending, node.id < timer.nextId
  fresh_deleted : ∀ id ∈ timer.deleted, id < timer.nextId
  mapped : ∀ node ∈ timer.timerSet ++ pending, node.id ∉ timer.deleted →
    timer.timerMap.lookup node.fd = some node
  live : ∀ fd node, timer.timerMap.lookup fd = some node →
    node.fd = fd ∧ node ∈ timer.timerSet ++ pending ∧ node.id ∉ timer.deleted
  sorted : timer.timerSet.Pairwise fun first second ↦ first.expireTime ≤ second.expireTime

variable {timer : TcpTimer κ} {pending : List (TimerNode κ)}

theorem agrees_new : Agrees (new : TcpTimer κ) [] where
  nodup := by simp [new]
  fresh := by simp [new]
  fresh_deleted := by simp [new]
  mapped := by simp [new]
  live := by simp [new]
  sorted := by simp [new]

theorem insertNode_perm (node : TimerNode κ) (timerSet : List (TimerNode κ)) :
    (insertNode node timerSet).Perm (node :: timerSet) := by
  have hsplit := List.takeWhile_append_dropWhile
    (p := fun other : TimerNode κ ↦ decide (other.expireTime ≤ node.expireTime)) (l := timerSet)
  unfold insertNode
  conv_rhs => rw [← hsplit]
  exact List.perm_middle

theorem sorted_insertNode (node : TimerNode κ) {timerSet : List (TimerNode κ)}
    (h : timerSet.Pairwise fun first second ↦ first.expireTime ≤ second.expireTime) :
    (insertNode node timerSet).Pairwise fun first second ↦
      first.expireTime ≤ second.expireTime := by
  induction timerSet with
  | nil => simp [insertNode]
  | cons other timerSet ih =>
    obtain ⟨hother, hrest⟩ := List.pairwise_cons.mp h
    by_cases hle : other.expireTime ≤ node.expireTime
    · have hcons : insertNode node (other :: timerSet) = other :: insertNode node timerSet := by
        simp [insertNode, hle]
      rw [hcons, List.pairwise_cons]
      refine ⟨fun later hmem ↦ ?_, ih hrest⟩
      rcases List.mem_cons.mp ((insertNode_perm node timerSet).mem_iff.mp hmem) with rfl | hlater
      · exact hle
      · exact hother later hlater
    · have hcons : insertNode node (other :: timerSet) = node :: other :: timerSet := by
        simp [insertNode, hle]
      rw [hcons, List.pairwise_cons]
      refine ⟨fun later hmem ↦ ?_, h⟩
      rcases List.mem_cons.mp hmem with rfl | hlater
      · exact Int.le_of_lt (Int.not_le.mp hle)
      · exact Int.le_trans (Int.le_of_lt (Int.not_le.mp hle)) (hother later hlater)

/-- Different nodes of the map have different descriptors. -/
theorem nodup_fd_of_mapped {nodes : List (TimerNode κ)} (hnodup : nodes.Nodup)
    (hmapped : ∀ node ∈ nodes, timer.timerMap.lookup node.fd = some node) :
    (nodes.map TimerNode.fd).Nodup := by
  refine hnodup.map_on fun first hfirst second hsecond hfd ↦ ?_
  have hlookup := hmapped first hfirst
  rw [hfd, hmapped second hsecond] at hlookup
  exact (Option.some.inj hlookup).symm

/-- Two nodes of the set or pending with one number are the same node. -/
theorem Agrees.eq_of_id_eq (h : timer.Agrees pending) {first second : TimerNode κ}
    (hfirst : first ∈ timer.timerSet ++ pending) (hsecond : second ∈ timer.timerSet ++ pending)
    (hid : first.id = second.id) : first = second :=
  List.inj_on_of_nodup_map h.nodup hfirst hsecond hid

/-- Removing a timer leaves its node to be dropped later. -/
theorem Agrees.removeTimer (h : timer.Agrees pending) (fd : ℕ) :
    (timer.removeTimer fd).Agrees pending := by
  unfold TcpTimer.removeTimer
  cases hlookup : timer.timerMap.lookup fd with
  | none => exact h
  | some node =>
    obtain ⟨rfl, hnode, hlive⟩ := h.live fd node hlookup
    refine ⟨h.nodup, h.fresh, ?_, ?_, ?_, h.sorted⟩
    · exact List.forall_mem_cons.mpr ⟨h.fresh node hnode, h.fresh_deleted⟩
    · intro other hother hnot
      obtain ⟨hid, hnot⟩ := not_or.mp (fun hmem ↦ hnot (List.mem_cons.mpr hmem))
      have hother' := h.mapped other hother hnot
      rwa [AList.lookup_erase_ne]
      rintro hfd
      rw [hfd, hlookup] at hother'
      exact hid (congrArg TimerNode.id (Option.some.inj hother').symm)
    · intro fd' other hother
      by_cases hfd : fd' = node.fd
      · rw [hfd, AList.lookup_erase] at hother
        exact absurd hother (by simp)
      · rw [AList.lookup_erase_ne hfd] at hother
        obtain ⟨hfd', hmem, hnot⟩ := h.live fd' other hother
        refine ⟨hfd', hmem, List.not_mem_cons_of_ne_of_not_mem (fun hid ↦ hfd ?_) hnot⟩
        rw [← hfd', h.eq_of_id_eq hmem hnode hid]

/-- The set after `addTimer`. -/
theorem mem_timerSet_addTimer {now : Time} {fd : ℕ} {timeout : ℤ} {callback : κ}
    {node : TimerNode κ} : node ∈ (timer.addTimer now fd timeout callback).timerSet ↔
      node = ⟨timer.nextId, fd, now + Time.milliseconds timeout, callback⟩ ∨
        node ∈ timer.timerSet := by
  rw [← List.mem_cons]
  exact (insertNode_perm _ timer.timerSet).mem_iff

/-- The marks after `addTimer`: the old ones and the replaced node. -/
theorem mem_deleted_addTimer {now : Time} {fd : ℕ} {timeout : ℤ} {callback : κ} {id : ℕ} :
    id ∈ (timer.addTimer now fd timeout callback).deleted ↔
      id ∈ timer.deleted ∨ ∃ node, timer.timerMap.lookup fd = some node ∧ node.id = id := by
  unfold addTimer
  cases timer.timerMap.lookup fd <;> simp [or_comm, eq_comm]

/-- Adding a timer replaces the live node of its descriptor. -/
theorem Agrees.addTimer (h : timer.Agrees pending) (now : Time) (fd : ℕ) (timeout : ℤ)
    (callback : κ) : (timer.addTimer now fd timeout callback).Agrees pending := by
  have hperm (node : TimerNode κ) : (insertNode node timer.timerSet ++ pending).Perm
      (node :: (timer.timerSet ++ pending)) :=
    (insertNode_perm node timer.timerSet).append_right pending
  have hset (node : TimerNode κ) (other : TimerNode κ) :
      other ∈ insertNode node timer.timerSet ++ pending ↔
        other = node ∨ other ∈ timer.timerSet ++ pending := by
    rw [(hperm node).mem_iff, List.mem_cons]
  refine ⟨?_, ?_, ?_, ?_, ?_, sorted_insertNode _ h.sorted⟩
  · have hmap := (hperm ⟨timer.nextId, fd, now + Time.milliseconds timeout, callback⟩).map
      TimerNode.id
    change ((insertNode _ timer.timerSet ++ pending).map TimerNode.id).Nodup
    rw [hmap.nodup_iff, List.map_cons, List.nodup_cons]
    refine ⟨fun hmem ↦ ?_, h.nodup⟩
    obtain ⟨other, hother, hid⟩ := List.mem_map.mp hmem
    have hlt := h.fresh other hother
    dsimp only at hid
    omega
  · intro node hnode
    rcases (hset _ node).mp hnode with rfl | hold
    · exact Nat.lt_succ_self _
    · exact Nat.lt_succ_of_lt (h.fresh node hold)
  · intro id hid
    rcases mem_deleted_addTimer.mp hid with hold | ⟨node, hlookup, rfl⟩
    · exact Nat.lt_succ_of_lt (h.fresh_deleted id hold)
    · exact Nat.lt_succ_of_lt (h.fresh node (h.live fd node hlookup).2.1)
  · intro node hnode hnot
    rw [mem_deleted_addTimer, not_or] at hnot
    rcases (hset _ node).mp hnode with rfl | hold
    · exact AList.lookup_insert ..
    · have hlookup := h.mapped node hold hnot.1
      have hfd : node.fd ≠ fd := fun hfd ↦ hnot.2 ⟨node, hfd ▸ hlookup, rfl⟩
      exact (AList.lookup_insert_ne hfd).trans hlookup
  · intro fd' node hlookup
    change AList.lookup fd' (timer.timerMap.insert fd _) = some node at hlookup
    by_cases hfd : fd' = fd
    · subst hfd
      rw [AList.lookup_insert] at hlookup
      obtain rfl := Option.some.inj hlookup
      refine ⟨rfl, (hset _ _).mpr (.inl rfl), fun hmem ↦ ?_⟩
      rcases mem_deleted_addTimer.mp hmem with hold | ⟨other, hother, hid⟩
      · exact absurd (h.fresh_deleted _ hold) (Nat.lt_irrefl _)
      · have hlt := h.fresh other (h.live _ other hother).2.1
        dsimp only at hid
        omega
    · rw [AList.lookup_insert_ne hfd] at hlookup
      obtain ⟨hfd', hmem, hnot⟩ := h.live fd' node hlookup
      refine ⟨hfd', (hset _ node).mpr (.inr hmem), fun hmark ↦ ?_⟩
      rcases mem_deleted_addTimer.mp hmark with hold | ⟨other, hother, hid⟩
      · exact hnot hold
      · obtain ⟨hotherFd, hotherMem, -⟩ := h.live fd other hother
        have heq := h.eq_of_id_eq hotherMem hmem hid
        exact hfd (by rw [← hfd', ← heq, hotherFd])

/-- Removing a timer takes its node out of the map, if there is one. -/
theorem timerMap_removeTimer (timer : TcpTimer κ) (fd : ℕ) :
    (timer.removeTimer fd).timerMap = timer.timerMap.erase fd := by
  unfold TcpTimer.removeTimer
  cases hlookup : timer.timerMap.lookup fd with
  | none => exact (AList.ext (List.kerase_of_notMem_keys (AList.lookup_eq_none.mp hlookup))).symm
  | some node => rfl

theorem timerSet_removeTimer (timer : TcpTimer κ) (fd : ℕ) :
    (timer.removeTimer fd).timerSet = timer.timerSet := by
  unfold removeTimer
  split <;> rfl

theorem nextId_removeTimer (timer : TcpTimer κ) (fd : ℕ) :
    (timer.removeTimer fd).nextId = timer.nextId := by
  unfold removeTimer
  split <;> rfl

/-- After its node has been taken out of the map, a descriptor has no timer to remove. -/
theorem removeTimer_unmap (timer : TcpTimer κ) (fd : ℕ) :
    (timer.unmap fd).removeTimer fd = timer.unmap fd := by
  simp [TcpTimer.removeTimer, unmap]

/-! ## Checking for expired nodes -/

/-- A scan drops deleted nodes, takes the live nodes of the front, and leaves a rest. -/
theorem scan_spec (timer : TcpTimer κ) (now : Time) (nodes : List (TimerNode κ)) :
    (∀ node ∈ (timer.scan now nodes).1, node.id ∉ timer.deleted ∧ node.expireTime < now) ∧
    ((timer.scan now nodes).2 ++ (timer.scan now nodes).1).Subperm nodes ∧
    (∀ node ∈ nodes, node.id ∉ timer.deleted →
      node ∈ (timer.scan now nodes).2 ++ (timer.scan now nodes).1) ∧
    (timer.scan now nodes).2 <:+ nodes := by
  induction nodes with
  | nil => simp [scan]
  | cons node nodes ih =>
    obtain ⟨hexpired, hsubperm, hlive, hsuffix⟩ := ih
    unfold scan isDeleted TimerNode.isExpired
    split
    · rename_i hdeleted
      rw [decide_eq_true_eq] at hdeleted
      refine ⟨hexpired, hsubperm.trans (List.sublist_cons_self ..).subperm, ?_,
        hsuffix.trans (List.suffix_cons ..)⟩
      intro other hother hnot
      rcases List.mem_cons.mp hother with rfl | hother
      · exact absurd hdeleted hnot
      · exact hlive other hother hnot
    · rename_i hnot
      rw [decide_eq_true_eq] at hnot
      split
      · rename_i hdue
        rw [decide_eq_true_eq] at hdue
        refine ⟨List.forall_mem_cons.mpr ⟨⟨hnot, hdue⟩, hexpired⟩, ?_, ?_,
          hsuffix.trans (List.suffix_cons ..)⟩
        · exact List.perm_middle.subperm.trans ((List.subperm_cons node).mpr hsubperm)
        · intro other hother hlive'
          rw [List.perm_middle.mem_iff]
          rcases List.mem_cons.mp hother with rfl | hother
          · exact List.mem_cons_self
          · exact List.mem_cons_of_mem _ (hlive other hother hlive')
      · refine ⟨by simp, ?_, fun other hother _ ↦ List.mem_append_left _ hother, List.suffix_rfl⟩
        rw [List.append_nil]

/-- In an ordered set no live node that is left by a scan has expired. -/
theorem scan_rest_not_expired (timer : TcpTimer κ) (now : Time) {nodes : List (TimerNode κ)}
    (hsorted : nodes.Pairwise fun first second ↦ first.expireTime ≤ second.expireTime) :
    ∀ node ∈ (timer.scan now nodes).2, ¬ node.expireTime < now := by
  induction nodes with
  | nil => simp [scan]
  | cons first nodes ih =>
    obtain ⟨hfirst, hrest⟩ := List.pairwise_cons.mp hsorted
    unfold scan isDeleted TimerNode.isExpired
    split
    · exact ih hrest
    · split
      · exact ih hrest
      · rename_i hdue
        rw [decide_eq_true_eq] at hdue
        intro node hmem
        rcases List.mem_cons.mp hmem with rfl | hmem
        · exact hdue
        · exact fun hlt ↦ hdue (Int.lt_of_le_of_lt (hfirst node hmem) hlt)

/-- Before any callback runs, the expired nodes are pending and everything else is as before. -/
theorem Agrees.scan (h : timer.Agrees []) (now : Time) :
    Agrees { timer with timerSet := (timer.scan now timer.timerSet).2 }
      (timer.scan now timer.timerSet).1 := by
  obtain ⟨hexpired, hsubperm, hlive, hsuffix⟩ := scan_spec timer now timer.timerSet
  have hnodup := h.nodup
  have hfresh := h.fresh
  have hmapped := h.mapped
  rw [List.append_nil] at hnodup hfresh hmapped
  refine ⟨?_, fun node hnode ↦ hfresh node (hsubperm.subset hnode), h.fresh_deleted,
    fun node hnode ↦ hmapped node (hsubperm.subset hnode), ?_, h.sorted.sublist hsuffix.sublist⟩
  · obtain ⟨nodes, hperm, hsublist⟩ := hsubperm
    exact (hperm.map TimerNode.id).nodup_iff.mp (hnodup.sublist (hsublist.map TimerNode.id))
  · intro fd node hlookup
    obtain ⟨hfd, hmem, hnot⟩ := h.live fd node hlookup
    exact ⟨hfd, hlive node (by simpa using hmem) hnot, hnot⟩

/-- Taking a pending node out of the map, when it was deleted and its descriptor has no new node. -/
theorem Agrees.unmap_of_none {node : TimerNode κ} (h : timer.Agrees (node :: pending))
    (hlookup : timer.timerMap.lookup node.fd = none) : (timer.unmap node.fd).Agrees pending := by
  have hmap : timer.timerMap.erase node.fd = timer.timerMap :=
    AList.ext (List.kerase_of_notMem_keys (AList.lookup_eq_none.mp hlookup))
  have hmem {other : TimerNode κ} (hother : other ∈ timer.timerSet ++ pending) :
      other ∈ timer.timerSet ++ node :: pending := by
    rw [List.perm_middle.mem_iff]
    exact List.mem_cons_of_mem _ hother
  have hnodup := h.nodup
  rw [(List.perm_middle.map TimerNode.id).nodup_iff, List.map_cons, List.nodup_cons] at hnodup
  refine ⟨hnodup.2, fun other hother ↦ h.fresh other (hmem hother), h.fresh_deleted, ?_, ?_,
    h.sorted⟩
  · intro other hother hlive
    rw [unmap, hmap]
    exact h.mapped other (hmem hother) hlive
  · intro fd other hother
    rw [unmap, hmap] at hother
    obtain ⟨hfd, hother', hlive⟩ := h.live fd other hother
    refine ⟨hfd, ?_, hlive⟩
    rw [List.perm_middle.mem_iff, List.mem_cons] at hother'
    rcases hother' with rfl | hother'
    · rw [hfd, hother] at hlookup
      exact absurd hlookup (by simp)
    · exact hother'

/-- Taking the first pending node out of the map, while it is live. -/
theorem Agrees.unmap {node : TimerNode κ} (h : timer.Agrees (node :: pending))
    (hlive : node.id ∉ timer.deleted) : (timer.unmap node.fd).Agrees pending := by
  have hnode : node ∈ timer.timerSet ++ node :: pending := by simp
  have hlookup := h.mapped node hnode hlive
  have hmem (other : TimerNode κ) : other ∈ timer.timerSet ++ node :: pending ↔
      other = node ∨ other ∈ timer.timerSet ++ pending := by
    rw [List.perm_middle.mem_iff, List.mem_cons]
  have hnodup := h.nodup
  rw [(List.perm_middle.map TimerNode.id).nodup_iff, List.map_cons, List.nodup_cons] at hnodup
  refine ⟨hnodup.2, fun other hother ↦ h.fresh other ((hmem other).mpr (.inr hother)),
    h.fresh_deleted, ?_, ?_, h.sorted⟩
  · intro other hother hnot
    have hother' := h.mapped other ((hmem other).mpr (.inr hother)) hnot
    refine (AList.lookup_erase_ne fun hfd ↦ hnodup.1 ?_).trans hother'
    rw [hfd, hlookup] at hother'
    exact List.mem_map.mpr ⟨other, hother, congrArg TimerNode.id (Option.some.inj hother').symm⟩
  · intro fd other hother
    change AList.lookup fd (timer.timerMap.erase node.fd) = some other at hother
    by_cases hfd : fd = node.fd
    · rw [hfd, AList.lookup_erase] at hother
      exact absurd hother (by simp)
    · rw [AList.lookup_erase_ne hfd] at hother
      obtain ⟨hfd', hother, hnot⟩ := h.live fd other hother
      refine ⟨hfd', ?_, hnot⟩
      rcases (hmem other).mp hother with rfl | hother
      · exact absurd hfd'.symm hfd
      · exact hother

end TcpTimer

end WebServer
