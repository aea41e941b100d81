import Mathlib.Tactic.Linarith
import Mathlib.Tactic.Ring
import Mathlib.Tactic.NormNum
import WebServer.Foundation.Execution
import WebServer.Foundation.TokenBucket
import WebServer.Service.RateLimiter

/-!
# Histories of the rate limiter

For each key the limiter is a token bucket of its own: a key without an entry stands for a full
bucket. The entries that `cleanup` drops have been left alone for ten minutes, in which any bucket
fills up, so dropping them cannot be observed.
-/

namespace WebServer

open Execution

/-- A call of `allow`, with the clock in `allow` and the clock that `cleanup` would read. -/
structure AllowCall where
  now : Time
  cleanupNow : Time
  key : Bytes
  le : now ≤ cleanupNow
  deriving DecidableEq

namespace RateLimiter

/-- The calls hold the mutex one after the other, and the clock does not go back. -/
def Chronological (calls : List AllowCall) : Prop :=
  calls.Pairwise fun first second ↦ first.cleanupNow ≤ second.now

def step (limiter : RateLimiter) (call : AllowCall) : RateLimiter :=
  (limiter.allow call.now call.cleanupNow call.key).2

/-- The calls of a history with their answers. -/
def answers : RateLimiter → List AllowCall → List (AllowCall × Bool)
  | _, [] => []
  | limiter, call :: calls =>
    (call, (limiter.allow call.now call.cleanupNow call.key).1) :: answers (limiter.step call) calls

/-- The number of calls for a key that were admitted in a window. -/
def admittedIn (key : Bytes) (start stop : Time) (answered : List (AllowCall × Bool)) : ℕ :=
  answered.countP fun entry ↦
    entry.1.key = key ∧ entry.2 ∧ start ≤ entry.1.now ∧ entry.1.now ≤ stop

/-! ## The bucket of a key -/

/-- A time in tokens. -/
def clock (limiter : RateLimiter) (now : Time) : ℚ := (now : ℚ) / 1000000000 * limiter.refillPerSec

/-- The bucket of a key; without an entry it is a full one. -/
def bucketOf (limiter : RateLimiter) (key : Bytes) (now : Time) : TokenBucket ℚ :=
  match limiter.buckets.lookup key with
  | none => .full limiter.capacity (limiter.clock now)
  | some bucket => ⟨bucket.tokens, limiter.clock bucket.lastRefill⟩

/-- The parameters make sense, and a bucket fills up before it can be dropped. -/
structure Tuned (limiter : RateLimiter) : Prop where
  capacity_pos : (1 : ℚ) ≤ limiter.capacity
  refill_pos : 0 < limiter.refillPerSec
  evicted_full : (limiter.capacity : ℚ) ≤ 600 * limiter.refillPerSec

/-- Every stored bucket holds between no and `capacity` tokens, and was refilled in the past. -/
def Stored (limiter : RateLimiter) (now : Time) : Prop :=
  ∀ key bucket, limiter.buckets.lookup key = some bucket →
    0 ≤ bucket.tokens ∧ bucket.tokens ≤ limiter.capacity ∧ bucket.lastRefill ≤ now

theorem tuned_new : Tuned new := by
  constructor <;> norm_num [new]

theorem stored_new (now : Time) : new.Stored now := by
  intro key bucket h
  exact absurd h (by simp [new])

variable {limiter : RateLimiter} {key key' : Bytes} {now cleanupNow : Time} {start : ℚ}

theorem refill_eq (limiter : RateLimiter) (bucket : Bucket) (now : Time) :
    limiter.refill bucket now =
      (⟨bucket.tokens, limiter.clock bucket.lastRefill⟩ : TokenBucket ℚ).levelAt
        (limiter.capacity : ℚ) (limiter.clock now) := by
  unfold refill TokenBucket.levelAt clock
  push_cast
  congr 2
  ring

theorem Tuned.clock_le (h : Tuned limiter) (first second : Time) :
    limiter.clock first ≤ limiter.clock second ↔ first ≤ second := by
  unfold clock
  rw [mul_le_mul_iff_of_pos_right h.refill_pos, div_le_div_iff_of_pos_right (by norm_num)]
  exact Int.cast_le

/-- Ten minutes fill a bucket. -/
theorem Tuned.capacity_le (h : Tuned limiter) {last : Time} (hold : Time.minutes 10 < now - last) :
    (limiter.capacity : ℚ) ≤ limiter.clock now - limiter.clock last := by
  have hgain : (600 : ℚ) ≤ ((now - last : ℤ) : ℚ) / 1000000000 := by
    rw [le_div_iff₀ (by norm_num)]
    have hidle : (600 * 1000000000 : ℤ) ≤ now - last := Int.le_of_lt hold
    exact_mod_cast hidle
  calc (limiter.capacity : ℚ) ≤ 600 * limiter.refillPerSec := h.evicted_full
    _ ≤ ((now - last : ℤ) : ℚ) / 1000000000 * limiter.refillPerSec :=
        mul_le_mul_of_nonneg_right hgain h.refill_pos.le
    _ = limiter.clock now - limiter.clock last := by
        unfold clock
        push_cast
        ring

/-! ## One call -/

/-- The bucket of the key behind a call, and the answer to the call. -/
def taken (limiter : RateLimiter) (key : Bytes) (now : Time) : Bool × TokenBucket ℚ :=
  (limiter.bucketOf key now).take limiter.capacity 1 (limiter.clock now)

/-- A limiter in which the key has paid for a call. -/
def charged (limiter : RateLimiter) (key : Bytes) (now : Time) : RateLimiter :=
  { limiter with buckets := limiter.buckets.insert key ⟨(limiter.taken key now).2.level, now⟩ }

/-- A call takes a token from the bucket of its key, and drops old entries at most. -/
theorem allow_spec (h : Tuned limiter) (key : Bytes) (now cleanupNow : Time) :
    (limiter.allow now cleanupNow key).1 = (limiter.taken key now).1 ∧
      ((limiter.allow now cleanupNow key).2 = limiter.charged key now ∨
        (limiter.allow now cleanupNow key).2 = (limiter.charged key now).cleanup cleanupNow) := by
  cases hlookup : limiter.buckets.lookup key with
  | none =>
    have htaken : limiter.taken key now = (true, ⟨limiter.capacity - 1, limiter.clock now⟩) := by
      simp [taken, bucketOf, hlookup, TokenBucket.take, TokenBucket.levelAt_full, h.capacity_pos]
    unfold allow charged
    simp only [hlookup, htaken]
    refine ⟨trivial, ?_⟩
    split
    · exact .inr rfl
    · exact .inl rfl
  | some bucket =>
    have hbucket : limiter.bucketOf key now = ⟨bucket.tokens, limiter.clock bucket.lastRefill⟩ := by
      simp [bucketOf, hlookup]
    unfold allow charged taken TokenBucket.take
    simp only [hlookup, hbucket, ← refill_eq]
    split
    · exact ⟨rfl, .inl rfl⟩
    · exact ⟨rfl, .inl rfl⟩

theorem lookup_cleanup : (limiter.cleanup now).buckets.lookup key =
    (limiter.buckets.lookup key).filter fun bucket ↦
      ¬ Time.minutes 10 < now - bucket.lastRefill := by
  refine Option.ext fun bucket ↦ ?_
  rw [Option.filter_eq_some_iff, ← Option.mem_def, ← Option.mem_def, AList.mem_lookup_iff,
    AList.mem_lookup_iff]
  exact List.mem_filter

/-! ## What is kept -/

theorem levelAt_bucketOf_nonneg (h : Tuned limiter) (hstored : limiter.Stored now) (key : Bytes) :
    0 ≤ (limiter.bucketOf key now).levelAt (limiter.capacity : ℚ) (limiter.clock now) := by
  have hcapacity : (0 : ℚ) ≤ limiter.capacity := Nat.cast_nonneg _
  unfold bucketOf
  cases hlookup : limiter.buckets.lookup key with
  | none =>
    dsimp only
    rwa [TokenBucket.levelAt_full le_rfl]
  | some bucket =>
    obtain ⟨htokens, -, hpast⟩ := hstored key bucket hlookup
    exact le_min hcapacity (add_nonneg htokens (sub_nonneg.mpr ((h.clock_le _ _).mpr hpast)))

theorem Stored.charged (h : Tuned limiter) (hstored : limiter.Stored now) (key : Bytes) :
    (limiter.charged key now).Stored now := by
  have hlevel := levelAt_bucketOf_nonneg h hstored key
  intro key' bucket hlookup
  change AList.lookup key' (limiter.buckets.insert key _) = some bucket at hlookup
  by_cases hkey : key' = key
  · subst hkey
    rw [AList.lookup_insert] at hlookup
    obtain rfl := Option.some.inj hlookup
    dsimp only [taken]
    rw [TokenBucket.take_snd]
    refine ⟨sub_nonneg.mpr (TokenBucket.paid_le hlevel), ?_, le_rfl⟩
    exact (sub_le_self _ (TokenBucket.paid_nonneg zero_le_one)).trans (TokenBucket.levelAt_le ..)
  · rw [AList.lookup_insert_ne hkey] at hlookup
    exact hstored key' bucket hlookup

theorem Stored.cleanup (hstored : limiter.Stored now) (later : Time) :
    (limiter.cleanup later).Stored now := by
  intro key bucket hlookup
  rw [lookup_cleanup, Option.filter_eq_some_iff] at hlookup
  exact hstored key bucket hlookup.1

theorem Stored.mono (hstored : limiter.Stored now) {later : Time} (hle : now ≤ later) :
    limiter.Stored later := by
  intro key bucket hlookup
  obtain ⟨htokens, hcapacity, hpast⟩ := hstored key bucket hlookup
  exact ⟨htokens, hcapacity, Int.le_trans hpast hle⟩

/-! ## Buckets that cannot be told apart -/

/-- From a time on the bucket of a key behaves like the given one. -/
def Tracks (limiter : RateLimiter) (key : Bytes) (now : Time) (bucket : TokenBucket ℚ) : Prop :=
  TokenBucket.SameFrom (limiter.capacity : ℚ) (limiter.clock now) (limiter.bucketOf key now) bucket

variable {bucket : TokenBucket ℚ} {later : Time}

theorem Tracks.mono (htuned : Tuned limiter) (h : limiter.Tracks key now bucket)
    (hle : now ≤ later) : limiter.Tracks key later bucket := by
  have hclock := (htuned.clock_le now later).mpr hle
  intro time htime
  rw [← h time (hclock.trans htime)]
  unfold bucketOf
  cases limiter.buckets.lookup key with
  | none =>
    dsimp only
    rw [TokenBucket.levelAt_full htime, TokenBucket.levelAt_full (hclock.trans htime)]
  | some bucket => rfl

/-- An entry that is dropped has been left alone long enough to be full. -/
theorem Tracks.cleanup (htuned : Tuned limiter) (hstored : limiter.Stored now)
    (h : limiter.Tracks key now bucket) : (limiter.cleanup now).Tracks key now bucket := by
  intro time htime
  refine Eq.trans ?_ (h time htime)
  unfold bucketOf
  rw [lookup_cleanup]
  cases hlookup : limiter.buckets.lookup key with
  | none => rfl
  | some stored =>
    by_cases hold : Time.minutes 10 < now - stored.lastRefill
    · rw [Option.filter_some, if_neg (by simpa only [decide_eq_true_eq, not_not] using hold)]
      refine (TokenBucket.levelAt_full htime).trans (min_eq_left ?_).symm
      have hidle := htuned.capacity_le hold
      have htokens := (hstored key stored hlookup).1
      change limiter.clock now ≤ time at htime
      change (limiter.capacity : ℚ) ≤ stored.tokens + (time - limiter.clock stored.lastRefill)
      linarith
    · rw [Option.filter_some, if_pos (by simpa only [decide_eq_true_eq] using hold)]
      rfl

theorem Tracks.charged (h : limiter.Tracks key now bucket) :
    (limiter.charged key now).Tracks key now
      (bucket.take (limiter.capacity : ℚ) 1 (limiter.clock now)).2 := by
  have hbucket : (limiter.charged key now).bucketOf key now = (limiter.taken key now).2 := by
    unfold bucketOf RateLimiter.charged
    rw [AList.lookup_insert]
    dsimp only [taken]
    rw [TokenBucket.take_snd]
    rfl
  intro time _
  rw [hbucket, taken, h.take_eq le_rfl]

theorem Tracks.charged_of_ne (h : limiter.Tracks key now bucket) (hne : key ≠ key') :
    (limiter.charged key' now).Tracks key now bucket := by
  intro time htime
  refine Eq.trans ?_ (h time htime)
  unfold bucketOf RateLimiter.charged
  rw [AList.lookup_insert_ne hne]
  rfl

/-! ## Histories -/

/-- The capacity and the rate never change. -/
theorem step_parameters (htuned : Tuned limiter) (call : AllowCall) :
    (limiter.step call).capacity = limiter.capacity ∧
      (limiter.step call).refillPerSec = limiter.refillPerSec := by
  rcases (allow_spec htuned call.key call.now call.cleanupNow).2 with hstep | hstep
  · rw [step, hstep]
    exact ⟨rfl, rfl⟩
  · rw [step, hstep]
    exact ⟨rfl, rfl⟩

theorem Tuned.step (htuned : Tuned limiter) (call : AllowCall) : Tuned (limiter.step call) := by
  obtain ⟨hcapacity, hrefill⟩ := step_parameters htuned call
  refine ⟨?_, ?_, ?_⟩
  · rw [hcapacity]
    exact htuned.capacity_pos
  · rw [hrefill]
    exact htuned.refill_pos
  · rw [hcapacity, hrefill]
    exact htuned.evicted_full

section Step

variable {call : AllowCall}

theorem Stored.step (htuned : Tuned limiter) (h : limiter.Stored call.now) :
    (limiter.step call).Stored call.cleanupNow := by
  rcases (allow_spec htuned call.key call.now call.cleanupNow).2 with hstep | hstep
  · rw [RateLimiter.step, hstep]
    exact (h.charged htuned call.key).mono call.le
  · rw [RateLimiter.step, hstep]
    exact ((h.charged htuned call.key).cleanup call.cleanupNow).mono call.le

/-- Entries that are dropped behind a call make no difference. -/
theorem Tracks.step (htuned : Tuned limiter) (hstored : limiter.Stored call.now)
    (h : (limiter.charged call.key call.now).Tracks key call.now bucket) :
    (limiter.step call).Tracks key call.cleanupNow bucket := by
  have htuned' : Tuned (limiter.charged call.key call.now) :=
    ⟨htuned.capacity_pos, htuned.refill_pos, htuned.evicted_full⟩
  have hlater := h.mono htuned' call.le
  rcases (allow_spec htuned call.key call.now call.cleanupNow).2 with hstep | hstep
  · rw [RateLimiter.step, hstep]
    exact hlater
  · rw [RateLimiter.step, hstep]
    exact hlater.cleanup htuned' ((hstored.charged htuned call.key).mono call.le)

end Step

/-- The calls for a key are answered by a token bucket that serves nothing else. -/
theorem filter_answers {calls : List AllowCall} (htuned : Tuned limiter)
    (hstored : limiter.Stored now) (hchrono : Chronological calls)
    (hnow : ∀ call ∈ calls, now ≤ call.now) (h : limiter.Tracks key now bucket) :
    (limiter.answers calls).filter (fun entry ↦ entry.1.key = key) =
      bucket.answers (limiter.capacity : ℚ) 1 (fun call ↦ limiter.clock call.now)
        (calls.filter fun call ↦ call.key = key) := by
  induction calls generalizing limiter bucket now with
  | nil => rfl
  | cons call calls ih =>
    obtain ⟨hfirst, hrest⟩ := List.pairwise_cons.mp hchrono
    have hle := hnow call List.mem_cons_self
    have hstored' := hstored.mono hle
    have hcall := h.mono htuned hle
    obtain ⟨hcapacity, hrefill⟩ := step_parameters htuned call
    have hclock : (limiter.step call).clock = limiter.clock := by
      funext time
      rw [clock, clock, hrefill]
    have hnext {bucket : TokenBucket ℚ} (hnext : (limiter.step call).Tracks key call.cleanupNow bucket) :=
      ih (htuned.step call) (hstored'.step htuned) hrest hfirst hnext
    rw [hcapacity, hclock] at hnext
    by_cases hkey : call.key = key
    · subst hkey
      rw [answers, List.filter_cons_of_pos (by simp), List.filter_cons_of_pos (by simp),
        TokenBucket.answers, hnext (Tracks.step htuned hstored' hcall.charged),
        (allow_spec htuned ..).1, taken, hcall.take_eq le_rfl]
    · rw [answers, List.filter_cons_of_neg (by simpa using hkey),
        List.filter_cons_of_neg (by simpa using hkey)]
      exact hnext (Tracks.step htuned hstored' (hcall.charged_of_ne (Ne.symm hkey)))

/-- After every history the stored buckets are in bounds. -/
theorem stored_run {calls : List AllowCall} (htuned : Tuned limiter) (hstored : limiter.Stored now)
    (hchrono : Chronological calls) (hnow : ∀ call ∈ calls, now ≤ call.now) :
    (run step limiter calls).capacity = limiter.capacity ∧
      ∃ later, (run step limiter calls).Stored later := by
  induction calls generalizing limiter now with
  | nil => exact ⟨rfl, now, hstored⟩
  | cons call calls ih =>
    obtain ⟨hfirst, hrest⟩ := List.pairwise_cons.mp hchrono
    have hle := hnow call List.mem_cons_self
    obtain ⟨hcapacity, hlater⟩ :=
      ih (htuned.step call) ((hstored.mono hle).step htuned) hrest hfirst
    exact ⟨hcapacity.trans (step_parameters htuned call).1, hlater⟩

theorem exists_le_now {calls : List AllowCall} (hchrono : Chronological calls) :
    ∃ now, ∀ call ∈ calls, now ≤ call.now := by
  cases calls with
  | nil => exact ⟨0, by simp⟩
  | cons call calls =>
    refine ⟨call.now, List.forall_mem_cons.mpr ⟨le_rfl, fun other hmem ↦ ?_⟩⟩
    exact Int.le_trans call.le ((List.pairwise_cons.mp hchrono).1 other hmem)

theorem Chronological.clock_le {calls : List AllowCall} (hchrono : Chronological calls)
    (htuned : Tuned limiter) : calls.Pairwise fun first second ↦
      limiter.clock first.now ≤ limiter.clock second.now :=
  hchrono.imp fun {first _} hle ↦ (htuned.clock_le ..).mpr (Int.le_trans first.le hle)

/-- The window of a key is the window of its bucket. -/
theorem admittedIn_eq (htuned : Tuned limiter) (key : Bytes) (start stop : Time)
    (answered : List (AllowCall × Bool)) :
    admittedIn key start stop answered =
      TokenBucket.admittedIn (fun call : AllowCall ↦ limiter.clock call.now) (limiter.clock start)
        (limiter.clock stop) (answered.filter fun entry ↦ entry.1.key = key) := by
  rw [admittedIn, TokenBucket.admittedIn, List.countP_filter]
  refine List.countP_congr fun entry _ ↦ ?_
  simp only [htuned.clock_le, decide_eq_true_eq, Bool.and_eq_true]
  exact and_comm

theorem map_fst_answers (limiter : RateLimiter) (calls : List AllowCall) :
    (limiter.answers calls).map Prod.fst = calls := by
  induction calls generalizing limiter with
  | nil => rfl
  | cons call calls ih => exact congrArg (call :: ·) (ih (limiter.step call))

/-! ## Results -/

section Results

variable {calls : List AllowCall}

/-- In every window a key gets no more than a full bucket and what arrives in the window. -/
theorem admittedIn_le (htuned : Tuned limiter) (hstored : limiter.Stored now)
    (hchrono : Chronological calls) (hnow : ∀ call ∈ calls, now ≤ call.now) (key : Bytes)
    {start stop : Time} (hwindow : start ≤ stop) :
    (admittedIn key start stop (limiter.answers calls) : ℚ) ≤
      limiter.capacity + (limiter.clock stop - limiter.clock start) := by
  have hserved := (hchrono.clock_le htuned).filter fun call ↦ decide (call.key = key)
  have hbound := TokenBucket.admittedIn_le zero_le_one hserved
    (fun call hmem ↦ (htuned.clock_le now call.now).mpr (hnow call (List.mem_of_mem_filter hmem)))
    (levelAt_bucketOf_nonneg htuned hstored key) ((htuned.clock_le ..).mpr hwindow)
  rw [← filter_answers htuned hstored hchrono hnow (fun _ _ ↦ rfl), ← admittedIn_eq htuned,
    nsmul_one] at hbound
  exact hbound

/-- Token-bucket bound of the singleton: in every window a key gets at most 1000 calls and 500 more
for each second of the window, and the stored buckets are never overdrawn or overfull. -/
theorem token_bucket_bound (hchrono : Chronological calls) (key : Bytes) {start stop : Time}
    (hwindow : start ≤ stop) :
    (∀ key bucket, (run step new calls).buckets.lookup key = some bucket →
      0 ≤ bucket.tokens ∧ bucket.tokens ≤ 1000) ∧
    (admittedIn key start stop (new.answers calls) : ℚ) ≤
      1000 + 500 * (((stop - start : ℤ) : ℚ) / 1000000000) := by
  obtain ⟨now, hnow⟩ := exists_le_now hchrono
  constructor
  · obtain ⟨hcapacity, later, hstored⟩ := stored_run tuned_new (stored_new now) hchrono hnow
    intro key bucket hlookup
    obtain ⟨htokens, hfull, -⟩ := hstored key bucket hlookup
    rw [hcapacity] at hfull
    exact ⟨htokens, by simpa [new] using hfull⟩
  · calc (admittedIn key start stop (new.answers calls) : ℚ) ≤
        new.capacity + (new.clock stop - new.clock start) :=
          admittedIn_le tuned_new (stored_new now) hchrono hnow key hwindow
      _ = 1000 + 500 * (((stop - start : ℤ) : ℚ) / 1000000000) := by
          unfold clock new
          push_cast
          ring

/-- Two calls for one key a millisecond apart, and one for another key between them. -/
def sampleCalls : List AllowCall :=
  [⟨0, 0, [], le_rfl⟩, ⟨500000, 500000, [1], le_rfl⟩, ⟨1000000, 1000000, [], le_rfl⟩]

theorem chronological_sampleCalls : Chronological sampleCalls := by
  unfold Chronological sampleCalls
  simp

theorem token_bucket_bound_sampleCalls :
    (∀ key bucket, (run step new sampleCalls).buckets.lookup key = some bucket →
      0 ≤ bucket.tokens ∧ bucket.tokens ≤ 1000) ∧
    (admittedIn [] 0 1000000 (new.answers sampleCalls) : ℚ) ≤
      1000 + 500 * (((1000000 - 0 : ℤ) : ℚ) / 1000000000) :=
  token_bucket_bound chronological_sampleCalls [] (by decide)

/-- Isolation and unobservable eviction: leaving calls for other keys and denied calls for the key
out of a history does not change the other answers for the key. -/
theorem answers_isolated (hchrono : Chronological calls) {key : Bytes}
    {kept : List (AllowCall × Bool)}
    (h : Thinning (fun entry ↦ ¬ entry.1.key = key ∨ entry.2 = false) (new.answers calls) kept) :
    (new.answers (kept.map Prod.fst)).filter (fun entry ↦ entry.1.key = key) =
      kept.filter fun entry ↦ entry.1.key = key := by
  obtain ⟨now, hnow⟩ := exists_le_now hchrono
  have hsublist : (kept.map Prod.fst).Sublist calls := by
    have hmap := h.sublist.map Prod.fst
    rwa [map_fst_answers] at hmap
  have htracks : new.Tracks key now (new.bucketOf key now) := fun _ _ ↦ rfl
  have hkept := filter_answers tuned_new (stored_new now) (hchrono.sublist hsublist)
    (fun call hmem ↦ hnow call (hsublist.subset hmem)) htracks
  have hthinned := h.filter
  rw [filter_answers tuned_new (stored_new now) hchrono hnow htracks] at hthinned
  have hserved := (hchrono.clock_le tuned_new).filter fun call ↦ decide (call.key = key)
  rw [hkept, List.filter_map]
  exact TokenBucket.answers_thinned hserved (fun call hmem ↦ (tuned_new.clock_le now call.now).mpr
    (hnow call (List.mem_of_mem_filter hmem))) (fun _ _ ↦ rfl) hthinned

def callAtOnce (key : Bytes) : AllowCall := ⟨0, 0, key, le_rfl⟩

/-- A call when a token has come back. -/
def callLater : AllowCall := ⟨2000000, 2000000, [], le_rfl⟩

/-- A thousand calls for one key at once, one for another key, and two more for the first key, the first
of which is denied. -/
def burstCalls : List AllowCall :=
  List.replicate 1000 (callAtOnce []) ++ [callAtOnce [1], callAtOnce [], callLater]

/-- The history without the call for the other key and the denied call, and the answers. -/
def burstKept : List (AllowCall × Bool) :=
  List.replicate 1000 (callAtOnce [], true) ++ [(callLater, true)]

set_option maxRecDepth 10000 in
theorem answers_burstCalls : new.answers burstCalls =
    List.replicate 1000 (callAtOnce [], true) ++
      [(callAtOnce [1], true), (callAtOnce [], false), (callLater, true)] := by
  decide +kernel

theorem answers_isolated_burstCalls :
    (new.answers (burstKept.map Prod.fst)).filter (fun entry ↦ entry.1.key = []) =
      burstKept.filter fun entry ↦ entry.1.key = [] := by
  have hchrono : Chronological burstCalls := by
    refine List.pairwise_append.mpr ⟨List.pairwise_replicate.mpr (.inr le_rfl), by decide, ?_⟩
    intro first hfirst later hlater
    obtain rfl := List.eq_of_mem_replicate hfirst
    simp only [List.mem_cons, List.not_mem_nil, or_false] at hlater
    obtain rfl | rfl | rfl := hlater <;> decide
  refine answers_isolated hchrono ?_
  rw [answers_burstCalls]
  exact .append_left _ (.drop _ (.inl (by decide)) (.drop _ (.inr rfl) (.keep _ .nil)))

end Results

end RateLimiter

end WebServer
