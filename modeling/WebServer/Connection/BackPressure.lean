import WebServer.Connection.CloseDecision

/-!
# Back-pressure

`processRequests` stops when the output queue holds more than `maxOutSegments` segments, after a
request that may have added two. One call therefore leaves at most two segments more than the limit,
and sets the close decision when it leaves more than the limit at all. Nothing keeps a later call from
adding to such a queue: the queue is bounded in runs in which no read event enters `processRequests`
with an overfull queue and a buffer to answer.
-/

namespace WebServer

open Bytes HttpServer OutSegment Execution

namespace Session

variable {session session' : Session}

/-- The queue is at most two segments over the limit, and only after the close decision. -/
structure QueueBounded (session : Session) : Prop where
  length_le : session.server.outQueue.length ≤ maxOutSegments + 2
  undecided : session.server.closeAfterFlush = false →
    session.server.outQueue.length ≤ maxOutSegments

/-- From a queue within the limit, one call of `processRequests` keeps the bound. -/
theorem queueBounded_processRequests (envs : ℕ → Env)
    (h : session.server.outQueue.length ≤ maxOutSegments) :
    (session.processRequests envs).QueueBounded := by
  refine processRequests_induct
    (motive := fun s s' ↦ s.server.outQueue.length ≤ maxOutSegments → s'.QueueBounded)
    ?_ ?_ ?_ ?_ ?_ envs session h
  · intro s _ hs
    exact ⟨by omega, fun _ ↦ hs⟩
  · intro s errorCode _ hs
    rw [reject_eq]
    refine ⟨?_, by simp⟩
    simp only [List.length_append, List.length_singleton]
    omega
  · intro s env request consumed _ hkeep hs
    have hsegments := length_nextAnswer_segments s env request
    refine ⟨?_, by simp [hkeep]⟩
    rw [afterRequest_server, List.length_append]
    omega
  · intro s env request consumed _ _ _ hs
    have hsegments := length_nextAnswer_segments s env request
    refine ⟨?_, by simp⟩
    rw [outQueueExceeded_server, afterRequest_server, List.length_append]
    omega
  · intro s env request consumed s' _ _ hlen ih _
    exact ih hlen

theorem QueueBounded.tryFlush (h : session.QueueBounded) (results : ℕ → SysResult) :
    (session.tryFlush results).QueueBounded := by
  have hflushed := tryFlush_flushed results session
  have hlen := hflushed.length_le
  obtain ⟨queue, registered, closed, hserver⟩ := hflushed.server
  refine ⟨hlen.trans h.length_le, fun hundecided ↦ hlen.trans (h.undecided ?_)⟩
  rwa [hserver] at hundecided

theorem QueueBounded.of_server (h : session.QueueBounded)
    (hqueue : session'.server.outQueue = session.server.outQueue)
    (hdecided : session'.server.closeAfterFlush = session.server.closeAfterFlush) :
    session'.QueueBounded := by
  refine ⟨?_, fun hundecided ↦ ?_⟩
  · rw [hqueue]
    exact h.length_le
  · rw [hqueue]
    exact h.undecided (hdecided ▸ hundecided)

/-- A read event that finds the close decision taken, and does not close the connection itself, finds
an output queue within the limit or less than a request in the buffer. -/
def RoomToAnswer (session : Session) : Event → Prop
  | .read recvs _ _ => session.server.closeAfterFlush = true → session.server.closed = false →
      (recvScan session.server.inBuffer.length recvs).2 = .drained →
      session.server.outQueue.length ≤ maxOutSegments ∨
        HttpRequest.parse (session.server.inBuffer ++
          (recvScan session.server.inBuffer.length recvs).1) = .needMore
  | _ => True

theorem QueueBounded.step (h : session.QueueBounded) (event : Event)
    (hroom : session.RoomToAnswer event) : (session.step event).QueueBounded := by
  cases event with
  | read recvs envs sends =>
    unfold Session.step
    dsimp only
    cases hopen : session.server.closed with
    | true =>
      rw [handleRead_of_closed envs sends hopen]
      exact h
    | false =>
      have hrecv : (session.recvIntoBuffer recvs).QueueBounded :=
        h.of_server (by rw [recvIntoBuffer_server]) (by rw [recvIntoBuffer_server])
      by_cases hdrained : (recvScan session.server.inBuffer.length recvs).2 = .drained
      · rw [handleRead_of_drained envs sends hopen hdrained]
        refine QueueBounded.tryFlush ?_ sends
        have hlimit : session.server.outQueue.length ≤ maxOutSegments ∨
            HttpRequest.parse (session.server.inBuffer ++
              (recvScan session.server.inBuffer.length recvs).1) = .needMore := by
          cases hdecided : session.server.closeAfterFlush with
          | true => exact hroom hdecided hopen hdrained
          | false => exact .inl (h.undecided hdecided)
        rcases hlimit with hlen | hneed
        · exact queueBounded_processRequests envs (by rw [recvIntoBuffer_server]; exact hlen)
        · rw [processRequests_of_needMore envs (by rw [recvIntoBuffer_server]; exact hneed)]
          exact hrecv
      · rw [handleRead_of_not_drained envs sends hopen hdrained]
        exact hrecv
  | write sends =>
    unfold Session.step handleWrite
    dsimp only
    split
    · exact h
    · exact h.tryFlush sends
  | close =>
    unfold Session.step
    dsimp only
    split
    · exact h
    · exact h.of_server rfl rfl

/-- In a run whose read events never find an overfull queue together with something to answer, the
output queue never holds more than two segments over the limit. -/
theorem length_outQueue_le (fd : ℕ) (clientIp : Bytes) (services : Services) (events : List Event)
    (hroom : Always step RoomToAnswer (new fd clientIp services) events) :
    (run step (new fd clientIp services) events).server.outQueue.length ≤ maxOutSegments + 2 := by
  have hstart : (new fd clientIp services).QueueBounded := ⟨by simp [new, HttpServer.new], by
    simp [new, HttpServer.new]⟩
  exact (run_invariant (fun s event hs hcond ↦ hs.step event hcond) hstart hroom).length_le

/-- The second of two refused reads finds the connection open and the close decision taken. -/
theorem length_outQueue_le_refusedRead :
    (step (new 7 (lit "10.0.0.1") ⟨⟨∅⟩, .new, .static⟩) refusedRead).server.closeAfterFlush = true ∧
      (step (new 7 (lit "10.0.0.1") ⟨⟨∅⟩, .new, .static⟩) refusedRead).server.closed = false ∧
      Always step RoomToAnswer (new 7 (lit "10.0.0.1") ⟨⟨∅⟩, .new, .static⟩)
        [refusedRead, refusedRead] ∧
      (run step (new 7 (lit "10.0.0.1") ⟨⟨∅⟩, .new, .static⟩)
        [refusedRead, refusedRead]).server.outQueue.length ≤ maxOutSegments + 2 := by
  have hrefused := refused_replicate 7 (lit "10.0.0.1") ⟨⟨∅⟩, .new, .static⟩ (n := 1) (by decide)
  rw [List.replicate_one, run_cons, run_nil] at hrefused
  have hlen : (step (new 7 (lit "10.0.0.1") ⟨⟨∅⟩, .new, .static⟩)
      refusedRead).server.outQueue.length ≤ maxOutSegments := by
    rw [hrefused.length_outQueue]
    decide
  have hroom : Always step RoomToAnswer (new 7 (lit "10.0.0.1") ⟨⟨∅⟩, .new, .static⟩)
      [refusedRead, refusedRead] := by
    refine ⟨fun hdecided ↦ absurd hdecided (by decide), ?_, trivial⟩
    intro _ _ _
    exact .inl hlen
  exact ⟨hrefused.decided (by decide), hrefused.isOpen, hroom,
    length_outQueue_le 7 (lit "10.0.0.1") ⟨⟨∅⟩, .new, .static⟩ [refusedRead, refusedRead] hroom⟩

/-- 131 refused reads of a peer that does not read fill the queue over the bound. -/
theorem outQueue_grows_after_limit : ¬ (run step (new 7 (lit "10.0.0.1") ⟨⟨∅⟩, .new, .static⟩)
    (List.replicate 131 refusedRead)).server.outQueue.length ≤ maxOutSegments + 2 := by
  rw [(refused_replicate 7 (lit "10.0.0.1") ⟨⟨∅⟩, .new, .static⟩ (n := 131)
    (by decide)).length_outQueue]
  decide

end Session

end WebServer
