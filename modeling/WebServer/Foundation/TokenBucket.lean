import Mathlib.Algebra.Order.Group.MinMax
import Mathlib.Algebra.Order.Sub.Basic
import Mathlib.Algebra.Module.NatInt
import Mathlib.Data.List.Basic
import WebServer.Foundation.SequentialObject
import WebServer.Foundation.Thinning

/-!
# Token buckets

A token bucket holds at most `capacity` tokens. Time is measured in tokens: one token arrives in a
unit of time. A request takes `cost` tokens if they are there, and is denied otherwise; in both cases
the bucket is brought up to date.

Bringing a bucket up to date twice is the same as doing it once, so a denied request leaves no trace,
and the requests admitted in a window cost no more than a full bucket and what arrives in the window.
A full bucket denies nothing exactly if the requests themselves keep to this.
-/

namespace WebServer

/-- The level of a bucket at the time it was last brought up to date. -/
structure TokenBucket (α : Type*) where
  level : α
  time : α

namespace TokenBucket

variable {α : Type*} [AddCommGroup α] [LinearOrder α]

/-- The level at a later time. -/
def levelAt (capacity : α) (bucket : TokenBucket α) (now : α) : α :=
  min capacity (bucket.level + (now - bucket.time))

/-- Answer a request, and the bucket behind it. -/
def take (capacity cost : α) (bucket : TokenBucket α) (now : α) : Bool × TokenBucket α :=
  let level := bucket.levelAt capacity now
  if cost ≤ level then (true, ⟨level - cost, now⟩) else (false, ⟨level, now⟩)

/-- A full bucket. -/
def full (capacity time : α) : TokenBucket α := ⟨capacity, time⟩

/-- The requests of a history with their answers; `clock` is the time of a request. -/
def answers {ρ : Type*} (capacity cost : α) (clock : ρ → α) :
    TokenBucket α → List ρ → List (ρ × Bool)
  | _, [] => []
  | bucket, request :: requests =>
    (request, (bucket.take capacity cost (clock request)).1) ::
      answers capacity cost clock (bucket.take capacity cost (clock request)).2 requests

variable {capacity cost : α} {bucket bucket' : TokenBucket α} {start stop now later : α}

theorem levelAt_le (bucket : TokenBucket α) (now : α) : bucket.levelAt capacity now ≤ capacity :=
  min_le_left ..

theorem take_fst : (bucket.take capacity cost now).1 = decide (cost ≤ bucket.levelAt capacity now) := by
  unfold take
  dsimp only
  split
  · rename_i h
    exact (decide_eq_true h).symm
  · rename_i h
    exact (decide_eq_false h).symm

/-- What a request pays. -/
def paid (capacity cost : α) (bucket : TokenBucket α) (now : α) : α :=
  if cost ≤ bucket.levelAt capacity now then cost else 0

theorem take_snd : (bucket.take capacity cost now).2 =
    ⟨bucket.levelAt capacity now - bucket.paid capacity cost now, now⟩ := by
  unfold take paid
  dsimp only
  split
  · rfl
  · rw [sub_zero]

/-- The two buckets cannot be told apart from the given time on. -/
def SameFrom (capacity : α) (start : α) (bucket bucket' : TokenBucket α) : Prop :=
  ∀ now, start ≤ now → bucket.levelAt capacity now = bucket'.levelAt capacity now

theorem SameFrom.take_eq (h : SameFrom capacity start bucket bucket') (hle : start ≤ now) :
    bucket.take capacity cost now = bucket'.take capacity cost now := by
  unfold take
  rw [h now hle]

theorem paid_nonneg (hcost : 0 ≤ cost) : 0 ≤ bucket.paid capacity cost now := by
  unfold paid
  split
  · exact hcost
  · exact le_rfl

/-- A request is paid from what is there. -/
theorem paid_le (h : 0 ≤ bucket.levelAt capacity now) :
    bucket.paid capacity cost now ≤ bucket.levelAt capacity now := by
  unfold paid
  split
  · assumption
  · exact h

/-- What an admitted request counts for, inside a window or not, is paid. -/
theorem nsmul_le_paid (hcost : 0 ≤ cost) (inside : Prop) [Decidable inside] :
    (if (bucket.take capacity cost now).1 = true ∧ inside then 1 else 0) • cost ≤
      bucket.paid capacity cost now := by
  unfold paid
  simp only [take_fst, decide_eq_true_eq]
  by_cases hadmitted : cost ≤ bucket.levelAt capacity now
  · by_cases hinside : inside
    · simp [hadmitted, hinside]
    · simp [hadmitted, hinside, hcost]
  · simp [hadmitted]

section Answers

variable {ρ : Type*} {clock : ρ → α} {requests : List ρ}

/-- The number of requests admitted between two times. -/
def admittedIn (clock : ρ → α) (start stop : α) (answered : List (ρ × Bool)) : ℕ :=
  answered.countP fun entry ↦ entry.2 ∧ start ≤ clock entry.1 ∧ clock entry.1 ≤ stop

omit [AddCommGroup α] in
theorem admittedIn_cons (entry : ρ × Bool) (answered : List (ρ × Bool)) :
    admittedIn clock start stop (entry :: answered) = admittedIn clock start stop answered +
      if entry.2 ∧ start ≤ clock entry.1 ∧ clock entry.1 ≤ stop then 1 else 0 := by
  rw [admittedIn, List.countP_cons]
  simp only [decide_eq_true_eq, admittedIn]

/-- Every answer is to a request of the history. -/
theorem mem_of_mem_answers {entry : ρ × Bool}
    (h : entry ∈ answers capacity cost clock bucket requests) : entry.1 ∈ requests := by
  induction requests generalizing bucket with
  | nil => exact absurd h List.not_mem_nil
  | cons request requests ih =>
    rcases List.mem_cons.mp h with rfl | h
    · exact List.mem_cons_self
    · exact List.mem_cons_of_mem _ (ih h)

theorem map_fst_answers : (answers capacity cost clock bucket requests).map Prod.fst = requests := by
  induction requests generalizing bucket with
  | nil => rfl
  | cons request requests ih => rw [answers, List.map_cons, ih]

/-- Behind the end of a window nothing is admitted in it. -/
theorem admittedIn_eq_zero (h : ∀ request ∈ requests, stop < clock request) :
    admittedIn clock start stop (answers capacity cost clock bucket requests) = 0 := by
  refine List.countP_eq_zero.mpr fun entry hmem ↦ ?_
  have hlate := h entry.1 (mem_of_mem_answers hmem)
  simp [hlate]

end Answers

variable [IsOrderedAddMonoid α]

/-- A bucket that was brought up to date is at the same level later as it would have been. -/
theorem levelAt_levelAt (bucket : TokenBucket α) (hle : now ≤ later) :
    levelAt capacity ⟨bucket.levelAt capacity now, now⟩ later = bucket.levelAt capacity later := by
  have hgain : 0 ≤ later - now := sub_nonneg.mpr hle
  have hsum : bucket.level + (now - bucket.time) + (later - now) =
      bucket.level + (later - bucket.time) := by
    rw [add_assoc, sub_add_sub_comm, add_comm now later, add_sub_add_right_eq_sub]
  unfold levelAt
  dsimp only
  rw [min_add, hsum, ← min_assoc, min_eq_left (le_add_of_nonneg_right hgain)]

theorem levelAt_full (hle : now ≤ later) : (full capacity now).levelAt capacity later = capacity :=
  min_eq_left (le_add_of_nonneg_right (sub_nonneg.mpr hle))

theorem levelAt_mono (bucket : TokenBucket α) (hle : now ≤ later) :
    bucket.levelAt capacity now ≤ bucket.levelAt capacity later :=
  min_le_min_left _ (add_le_add_right (sub_le_sub_right hle _) _)

/-- Between two times, no more arrives than the time between them. -/
theorem levelAt_le_add (bucket : TokenBucket α) (hle : now ≤ later) :
    bucket.levelAt capacity later ≤ bucket.levelAt capacity now + (later - now) := by
  rw [← levelAt_levelAt bucket hle]
  exact min_le_right ..

/-- A denied request leaves no trace. -/
theorem sameFrom_of_denied (h : (bucket.take capacity cost now).1 = false) :
    SameFrom capacity now (bucket.take capacity cost now).2 bucket := by
  rw [take_fst, decide_eq_false_iff_not] at h
  intro later hle
  rw [take_snd, paid, if_neg h, sub_zero]
  exact levelAt_levelAt bucket hle

theorem levelAt_take_nonneg (cost : α) (h : 0 ≤ bucket.levelAt capacity now) :
    0 ≤ (bucket.take capacity cost now).2.levelAt capacity now := by
  rw [take_snd]
  refine le_min (h.trans (levelAt_le bucket now)) ?_
  dsimp only
  rw [sub_self, add_zero]
  exact sub_nonneg.mpr (paid_le h)

/-- A request is paid out of the level. -/
theorem levelAt_take_le :
    (bucket.take capacity cost now).2.levelAt capacity now + bucket.paid capacity cost now ≤
      bucket.levelAt capacity now := by
  rw [take_snd]
  refine (add_le_add_left (min_le_right ..) _).trans_eq ?_
  dsimp only
  rw [sub_self, add_zero, sub_add_cancel]

/-! ## Histories -/

section Histories

variable {ρ : Type*} {clock : ρ → α} {request : ρ} {requests : List ρ}

/-- Without some of the denied requests the others get the same answers. -/
theorem answers_thinned {kept : List (ρ × Bool)}
    (hchrono : requests.Pairwise fun first second ↦ clock first ≤ clock second)
    (hstart : ∀ request ∈ requests, start ≤ clock request)
    (hsame : SameFrom capacity start bucket bucket')
    (h : Thinning (fun entry ↦ entry.2 = false)
      (answers capacity cost clock bucket requests) kept) :
    answers capacity cost clock bucket' (kept.map Prod.fst) = kept := by
  induction requests generalizing bucket bucket' start kept with
  | nil =>
    cases h with
    | nil => rfl
  | cons request requests ih =>
    obtain ⟨hfirst, hrest⟩ := List.pairwise_cons.mp hchrono
    have hle := hstart request List.mem_cons_self
    cases h with
    | keep entry h =>
      have hsame' : SameFrom capacity (clock request) (bucket.take capacity cost (clock request)).2
          (bucket'.take capacity cost (clock request)).2 := by
        intro now _
        rw [hsame.take_eq hle]
      rw [List.map_cons, answers, ih hrest hfirst hsame' h, ← hsame.take_eq hle]
    | drop entry hdrop h =>
      refine ih hrest hfirst ?_ h
      intro now hnow
      exact (sameFrom_of_denied hdrop now hnow).trans (hsame now (hle.trans hnow))

/-- What is admitted from a time on is paid from what is there and what arrives. -/
theorem admittedIn_le_level (hcost : 0 ≤ cost) (hchrono : requests.Pairwise fun first second ↦
      clock first ≤ clock second)
    (hstart : ∀ request ∈ requests, now ≤ clock request) (hstop : now ≤ stop)
    (hlevel : 0 ≤ bucket.levelAt capacity now) :
    admittedIn clock start stop (answers capacity cost clock bucket requests) • cost ≤
      bucket.levelAt capacity now + (stop - now) := by
  induction requests generalizing bucket now with
  | nil =>
    rw [answers, admittedIn, List.countP_nil, zero_nsmul]
    exact add_nonneg hlevel (sub_nonneg.mpr hstop)
  | cons request requests ih =>
    obtain ⟨hfirst, hrest⟩ := List.pairwise_cons.mp hchrono
    have hle := hstart request List.mem_cons_self
    by_cases hlate : clock request ≤ stop
    · have hnow := hlevel.trans (levelAt_mono bucket hle)
      have hrestLe := ih hrest hfirst hlate (levelAt_take_nonneg cost hnow)
      rw [answers, admittedIn_cons, add_nsmul]
      calc _ ≤ ((bucket.take capacity cost (clock request)).2.levelAt capacity (clock request) +
              (stop - clock request)) + bucket.paid capacity cost (clock request) :=
            add_le_add hrestLe (nsmul_le_paid hcost _)
        _ = (bucket.take capacity cost (clock request)).2.levelAt capacity (clock request) +
              bucket.paid capacity cost (clock request) + (stop - clock request) :=
            add_right_comm ..
        _ ≤ bucket.levelAt capacity (clock request) + (stop - clock request) :=
            add_le_add_left levelAt_take_le _
        _ ≤ bucket.levelAt capacity now + (clock request - now) + (stop - clock request) :=
            add_le_add_left (levelAt_le_add bucket hle) _
        _ = bucket.levelAt capacity now + (stop - now) := by
            rw [add_assoc, sub_add_sub_cancel']
    · rw [not_le] at hlate
      have hall : ∀ other ∈ request :: requests, stop < clock other :=
        List.forall_mem_cons.mpr ⟨hlate, fun other hmem ↦ hlate.trans_le (hfirst other hmem)⟩
      rw [admittedIn_eq_zero hall, zero_nsmul]
      exact add_nonneg hlevel (sub_nonneg.mpr hstop)

/-- In any window a full bucket and what arrives in the window pay for what is admitted. -/
theorem admittedIn_le (hcost : 0 ≤ cost) (hchrono : requests.Pairwise fun first second ↦
      clock first ≤ clock second)
    (hnow : ∀ request ∈ requests, now ≤ clock request) (hlevel : 0 ≤ bucket.levelAt capacity now)
    (hwindow : start ≤ stop) :
    admittedIn clock start stop (answers capacity cost clock bucket requests) • cost ≤
      capacity + (stop - start) := by
  induction requests generalizing bucket now with
  | nil =>
    rw [answers, admittedIn, List.countP_nil, zero_nsmul]
    exact add_nonneg (hlevel.trans (levelAt_le ..)) (sub_nonneg.mpr hwindow)
  | cons request requests ih =>
    obtain ⟨hfirst, hrest⟩ := List.pairwise_cons.mp hchrono
    have hle := hnow request List.mem_cons_self
    have hrequest := hlevel.trans (levelAt_mono bucket hle)
    by_cases hearly : clock request < start
    · rw [answers, admittedIn_cons, if_neg (fun h ↦ hearly.not_ge h.2.1), add_zero]
      exact ih hrest hfirst (levelAt_take_nonneg cost hrequest)
    · rw [not_lt] at hearly
      have hall : ∀ other ∈ request :: requests, clock request ≤ clock other :=
        List.forall_mem_cons.mpr ⟨le_rfl, hfirst⟩
      by_cases hlate : clock request ≤ stop
      · calc _ ≤ bucket.levelAt capacity (clock request) + (stop - clock request) :=
              admittedIn_le_level hcost hchrono hall hlate hrequest
          _ ≤ capacity + (stop - start) :=
              add_le_add (levelAt_le ..) (sub_le_sub_left hearly _)
      · rw [not_le] at hlate
        rw [admittedIn_eq_zero (fun other hmem ↦ hlate.trans_le (hall other hmem)), zero_nsmul]
        exact add_nonneg (hlevel.trans (levelAt_le ..)) (sub_nonneg.mpr hwindow)

/-! ## Histories without a denied request -/

/-- The number of requests between two times. -/
def requestsIn (clock : ρ → α) (start stop : α) (requests : List ρ) : ℕ :=
  requests.countP fun request ↦ start ≤ clock request ∧ clock request ≤ stop

omit [AddCommGroup α] [IsOrderedAddMonoid α] in
theorem requestsIn_le_cons (clock : ρ → α) (start stop : α) (request : ρ) (requests : List ρ) :
    requestsIn clock start stop requests ≤ requestsIn clock start stop (request :: requests) :=
  (List.sublist_cons_self request requests).countP_le

omit [AddCommGroup α] [IsOrderedAddMonoid α] in
theorem requestsIn_cons_self (hearly : start ≤ clock request) (hlate : clock request ≤ stop) :
    requestsIn clock start stop (request :: requests) = requestsIn clock start stop requests + 1 := by
  rw [requestsIn, List.countP_cons_of_pos (by simp [hearly, hlate])]
  rfl

omit [AddCommGroup α] [IsOrderedAddMonoid α] in
/-- A window may begin with the first request. -/
theorem requestsIn_congr_start {start' : α} (h : ∀ request ∈ requests, start ≤ clock request)
    (h' : ∀ request ∈ requests, start' ≤ clock request) (stop : α) :
    requestsIn clock start stop requests = requestsIn clock start' stop requests := by
  apply List.countP_congr
  intro request hmem
  simp [h request hmem, h' request hmem]

omit [AddCommGroup α] [IsOrderedAddMonoid α] in
theorem admittedIn_eq_requestsIn {answered : List (ρ × Bool)} (h : ∀ entry ∈ answered, entry.2 = true) :
    admittedIn clock start stop answered = requestsIn clock start stop (answered.map Prod.fst) := by
  rw [admittedIn, requestsIn, List.countP_map]
  apply List.countP_congr
  intro entry hmem
  simp [h entry hmem]

/-- Requests for which a bucket of this size is enough, wherever a window begins and ends. -/
def Conforms (capacity cost : α) (clock : ρ → α) (requests : List ρ) : Prop :=
  ∀ first last, clock first ≤ clock last →
    requestsIn clock (clock first) (clock last) requests • cost ≤ capacity + (clock last - clock first)

theorem Conforms.tail (hcost : 0 ≤ cost)
    (h : Conforms capacity cost clock (request :: requests)) :
    Conforms capacity cost clock requests := by
  intro first last hle
  have hfewer := requestsIn_le_cons clock (clock first) (clock last) request requests
  exact (nsmul_le_nsmul_left hcost hfewer).trans (h first last hle)

/-- If the level is enough for the requests up to any time, and these conform, then none is denied. -/
theorem Conforms.admitted (hcost : 0 ≤ cost)
    (hchrono : requests.Pairwise fun first second ↦ clock first ≤ clock second)
    (hnow : ∀ request ∈ requests, now ≤ clock request)
    (hconforms : Conforms capacity cost clock requests)
    (hlevel : ∀ last, now ≤ clock last →
      requestsIn clock now (clock last) requests • cost ≤
        bucket.levelAt capacity now + (clock last - now)) :
    ∀ entry ∈ answers capacity cost clock bucket requests, entry.2 = true := by
  induction requests generalizing bucket now with
  | nil => exact fun entry hmem ↦ absurd hmem List.not_mem_nil
  | cons request requests ih =>
    obtain ⟨hfirst, hrest⟩ := List.pairwise_cons.mp hchrono
    have hle := hnow request List.mem_cons_self
    have hall : ∀ other ∈ request :: requests, clock request ≤ clock other :=
      List.forall_mem_cons.mpr ⟨le_rfl, hfirst⟩
    -- The level when the request is made is enough for the requests up to any time behind it.
    have hready (last : ρ) (hlast : clock request ≤ clock last) :
        requestsIn clock (clock request) (clock last) (request :: requests) • cost ≤
          bucket.levelAt capacity (clock request) + (clock last - clock request) := by
      rw [← levelAt_levelAt bucket hle, levelAt]
      dsimp only
      rw [← min_add_add_right]
      apply le_min
      · exact hconforms request last hlast
      · rw [← requestsIn_congr_start hnow hall, add_assoc, sub_add_sub_cancel']
        exact hlevel last (hle.trans hlast)
    have hpaid : cost ≤ bucket.levelAt capacity (clock request) := by
      have hone := hready request le_rfl
      rw [requestsIn_cons_self le_rfl le_rfl, sub_self, add_zero, succ_nsmul] at hone
      exact (le_add_of_nonneg_left (nsmul_nonneg hcost _)).trans hone
    have hadmitted : (bucket.take capacity cost (clock request)).1 = true := by
      rw [take_fst, decide_eq_true hpaid]
    have hleft : (bucket.take capacity cost (clock request)).2.levelAt capacity (clock request) =
        bucket.levelAt capacity (clock request) - cost := by
      rw [take_snd, paid, if_pos hpaid, levelAt]
      dsimp only
      rw [sub_self, add_zero]
      exact min_eq_right ((sub_le_self _ hcost).trans (levelAt_le ..))
    rw [answers, List.forall_mem_cons]
    refine ⟨hadmitted, ih hrest hfirst (hconforms.tail hcost) fun last hlast ↦ ?_⟩
    have hnext := hready last hlast
    rw [requestsIn_cons_self le_rfl hlast, succ_nsmul] at hnext
    rw [hleft, sub_add_eq_add_sub]
    exact le_sub_iff_add_le.mpr hnext

/-- A full bucket denies nothing exactly if the requests conform. -/
theorem forall_admitted_iff {origin : ρ} (hcost : 0 ≤ cost) (hcapacity : 0 ≤ capacity)
    (hchrono : requests.Pairwise fun first second ↦ clock first ≤ clock second)
    (hstart : ∀ request ∈ requests, clock origin ≤ clock request) :
    (∀ entry ∈ answers capacity cost clock (full capacity (clock origin)) requests, entry.2 = true) ↔
      Conforms capacity cost clock requests := by
  have hfull : (full capacity (clock origin)).levelAt capacity (clock origin) = capacity :=
    levelAt_full le_rfl
  constructor
  · intro hadmitted first last hle
    have hcount := admittedIn_le hcost hchrono hstart (hfull.symm ▸ hcapacity) hle
    rwa [admittedIn_eq_requestsIn hadmitted, map_fst_answers] at hcount
  · intro hconforms
    apply hconforms.admitted hcost hchrono hstart
    intro last hlast
    rw [hfull]
    exact hconforms origin last hlast

end Histories

/-! ## The bucket as a sequential object -/

/-- A denied request changes nothing. -/
def object {ρ : Type*} (capacity cost : α) (clock : ρ → α) : SequentialObject (TokenBucket α) ρ Bool where
  Responds bucket request admitted next :=
    (bucket.take capacity cost (clock request)).1 = admitted ∧
      next = if admitted then (bucket.take capacity cost (clock request)).2 else bucket

/-- The answers of an execution are those of a history. -/
theorem answers_of_executes {ρ : Type*} {clock : ρ → α} {entries : List (ρ × Bool)}
    {last : TokenBucket α} (h : (object capacity cost clock).Executes bucket entries last)
    (hchrono : (entries.map Prod.fst).Pairwise fun first second ↦ clock first ≤ clock second)
    (hstart : ∀ request ∈ entries.map Prod.fst, start ≤ clock request)
    (hsame : SameFrom capacity start bucket bucket') :
    answers capacity cost clock bucket' (entries.map Prod.fst) = entries := by
  induction h generalizing bucket' start with
  | nil => rfl
  | @cons bucket next last request admitted entries hresponds _ ih =>
    obtain ⟨hadmitted, hnext⟩ := hresponds
    obtain ⟨hfirst, hrest⟩ := List.pairwise_cons.mp hchrono
    have hle : start ≤ clock request := hstart request List.mem_cons_self
    have hsame' : SameFrom capacity (clock request) next
        (bucket'.take capacity cost (clock request)).2 := by
      intro now hnow
      rw [hnext, ← hsame.take_eq hle]
      cases admitted with
      | true => rfl
      | false => exact (sameFrom_of_denied hadmitted now hnow).symm
    rw [List.map_cons, answers, ih hrest hfirst hsame', ← hsame.take_eq hle, hadmitted]

end TokenBucket

end WebServer
