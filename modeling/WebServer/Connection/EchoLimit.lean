import WebServer.Connection.Linearization

/-!
# What the limiter does for a client

Seen from one address, the application is a single token bucket: nothing but its own echo requests
changes it. In the order of the journal an address therefore gets the answers of a full bucket to its
own requests, whatever other addresses send and on however many connections its requests arrive.
-/

namespace WebServer

open Bytes Execution

namespace Application

/-- An echo request: when it was answered, and whether it was admitted. -/
def echoAnswer (entry : Arrival × Message) : Option (Time × Bool) :=
  match entry.1.operation with
  | .ok (.echo _) => some (entry.1.now, entry.2.statusCode = 200)
  | _ => none

/-- An echo request of an address. -/
def echoEntry (clientIp : Bytes) (entry : Arrival × Message) : Option (Time × Bool) :=
  if entry.1.clientIp = clientIp then echoAnswer entry else none

variable {root clientIp : Bytes} {app next : Application} {arrival : Arrival} {message : Message}

theorem echoEntry_eq_none (h : ∀ text, arrival.operation ≠ .ok (.echo text)) (message : Message) :
    echoEntry clientIp (arrival, message) = none := by
  unfold echoEntry echoAnswer
  dsimp only
  split
  · split
    · rename_i text heq
      exact absurd heq (h text)
    · rfl
  · rfl

theorem echoEntry_echo {text : Bytes} (h : arrival.operation = .ok (.echo text)) (message : Message) :
    echoEntry clientIp (arrival, message) =
      if arrival.clientIp = clientIp then some (arrival.now, decide (message.statusCode = 200))
      else none := by
  unfold echoEntry echoAnswer
  dsimp only
  rw [h]

/-- What an answer does to the bucket of an address. -/
theorem Answers.bucket (h : Answers root app arrival message next) (clientIp : Bytes) :
    echoEntry clientIp (arrival, message) = none ∧ next.buckets clientIp = app.buckets clientIp ∨
      ∃ admitted, echoEntry clientIp (arrival, message) = some (arrival.now, admitted) ∧
        (TokenBucket.object 1000 1 tokenClock).Responds (app.buckets clientIp) arrival.now admitted
          (next.buckets clientIp) := by
  have hother (hoperation : ∀ text, arrival.operation ≠ .ok (.echo text))
      (hbuckets : next.buckets = app.buckets) :
      echoEntry clientIp (arrival, message) = none ∧ next.buckets clientIp = app.buckets clientIp :=
    ⟨echoEntry_eq_none hoperation message, congrFun hbuckets clientIp⟩
  cases h with
  | page h | file h | forbidden h | call h | list h | methodNotAllowed h | notFound h | malformed h =>
    left
    apply hother
    · intro text heq
      simp [h] at heq
    · rfl
  | @echo text h hpaid =>
    rw [echoEntry_echo h]
    by_cases hself : arrival.clientIp = clientIp
    · subst hself
      rw [if_pos rfl]
      exact .inr ⟨true, rfl, hpaid, Function.update_self ..⟩
    · rw [if_neg hself]
      exact .inl ⟨rfl, Function.update_of_ne (Ne.symm hself) ..⟩
  | @limited text h hdenied =>
    rw [echoEntry_echo h]
    by_cases hself : arrival.clientIp = clientIp
    · subst hself
      rw [if_pos rfl]
      exact .inr ⟨false, rfl, hdenied, rfl⟩
    · rw [if_neg hself]
      exact .inl ⟨rfl, rfl⟩

theorem projects_bucket (root clientIp : Bytes) :
    (object root).Projects (TokenBucket.object 1000 1 tokenClock) (fun app ↦ app.buckets clientIp)
      (echoEntry clientIp) where
  responds h hentry := by
    obtain ⟨hnone, -⟩ | ⟨admitted, hsome, hresponds⟩ := Answers.bucket h clientIp
    · exact absurd (hnone.symm.trans hentry) (by simp)
    · obtain ⟨rfl, rfl⟩ := Prod.mk.inj (Option.some.inj (hsome.symm.trans hentry))
      exact hresponds
  silent h hentry := by
    obtain ⟨-, hbucket⟩ | ⟨admitted, hsome, -⟩ := Answers.bucket h clientIp
    · exact hbucket
    · exact absurd (hsome.symm.trans hentry) (by simp)

/-- The echo requests of an address with their answers. -/
def echoes (clientIp : Bytes) (entries : List (Arrival × Message)) : List (Time × Bool) :=
  entries.filterMap (echoEntry clientIp)

theorem times_echoes (clientIp : Bytes) (entries : List (Arrival × Message)) :
    ((echoes clientIp entries).map Prod.fst).Sublist (entries.map fun entry ↦ entry.1.now) := by
  induction entries with
  | nil => exact .slnil
  | cons entry entries ih =>
    obtain ⟨arrival, message⟩ := entry
    have hentry : echoEntry clientIp (arrival, message) = none ∨
        ∃ admitted, echoEntry clientIp (arrival, message) = some (arrival.now, admitted) := by
      unfold echoEntry echoAnswer
      dsimp only
      split
      · split
        · exact .inr ⟨_, rfl⟩
        · exact .inl rfl
      · exact .inl rfl
    unfold echoes at ih ⊢
    rcases hentry with hnone | ⟨admitted, hsome⟩
    · rw [List.filterMap_cons_none hnone]
      exact ih.cons arrival.now
    · rw [List.filterMap_cons_some hsome]
      exact ih.cons_cons arrival.now

theorem tokenClock_le_iff (first last : Time) :
    tokenClock first ≤ tokenClock last ↔ first ≤ last := by
  unfold tokenClock
  rw [mul_le_mul_iff_of_pos_right (by norm_num), div_le_div_iff_of_pos_right (by norm_num)]
  exact Int.cast_le

/-- The echo requests of an address get the answers of a full bucket. -/
theorem answers_echoes {services : Services} {start : Time} {last : Application}
    {entries : List (Arrival × Message)}
    (h : (object root).Executes (initial services start) entries last)
    (hafter : ∀ time ∈ entries.map (fun entry ↦ entry.1.now), start ≤ time)
    (hchrono : (entries.map fun entry ↦ entry.1.now).Pairwise (· ≤ ·)) (clientIp : Bytes) :
    ((echoes clientIp entries).map Prod.fst).Pairwise
        (fun first second ↦ tokenClock first ≤ tokenClock second) ∧
      (∀ request ∈ (echoes clientIp entries).map Prod.fst, tokenClock start ≤ tokenClock request) ∧
      TokenBucket.answers 1000 1 tokenClock (.full 1000 (tokenClock start))
        ((echoes clientIp entries).map Prod.fst) = echoes clientIp entries := by
  have htimes := times_echoes clientIp entries
  have hordered : ((echoes clientIp entries).map Prod.fst).Pairwise
      fun first second ↦ tokenClock first ≤ tokenClock second :=
    (hchrono.sublist htimes).imp fun hle ↦ (tokenClock_le_iff ..).mpr hle
  have hlater : ∀ request ∈ (echoes clientIp entries).map Prod.fst,
      tokenClock start ≤ tokenClock request :=
    fun request hmem ↦ (tokenClock_le_iff ..).mpr (hafter request (htimes.subset hmem))
  have hexecutes := h.project (projects_bucket root clientIp)
  exact ⟨hordered, hlater,
    TokenBucket.answers_of_executes hexecutes hordered hlater fun _ _ ↦ rfl⟩

/-- What a full bucket and a window of time bring, in echoes. -/
def allowance (first last : Time) : ℚ := 1000 + 500 * (((last - first : ℤ) : ℚ) / 1000000000)

theorem capacity_add_clock (first last : Time) :
    1000 + (tokenClock last - tokenClock first) = allowance first last := by
  unfold tokenClock allowance
  push_cast
  ring

/-- An address is admitted at its rate, and not below it. -/
structure ServedAtRate (echoes : List (Time × Bool)) : Prop where
  bounded : ∀ first last, first ≤ last →
    (echoes.countP (fun echo ↦ echo.2 ∧ first ≤ echo.1 ∧ echo.1 ≤ last) : ℚ) ≤ allowance first last
  granted : (∀ echo ∈ echoes, echo.2 = true) ↔ ∀ first last, first ≤ last →
    (echoes.countP (fun echo ↦ first ≤ echo.1 ∧ echo.1 ≤ last) : ℚ) ≤ allowance first last

/-- More than a bucket of requests at one time: a bucket of them is served, and not all. -/
theorem ServedAtRate.burst {echoes : List (Time × Bool)} (h : ServedAtRate echoes) {now : Time}
    (hnow : ∀ echo ∈ echoes, echo.1 = now) (hlength : 1000 < echoes.length) :
    echoes.countP Prod.snd ≤ 1000 ∧ ∃ echo ∈ echoes, echo.2 = false := by
  have hallowance : allowance now now = ((1000 : ℕ) : ℚ) := by simp [allowance]
  constructor
  · have hbound := h.bounded now now le_rfl
    rw [hallowance, Nat.cast_le] at hbound
    refine hbound.trans' (List.countP_mono_left fun echo hmem hadmitted ↦ ?_)
    simpa [hnow echo hmem] using hadmitted
  · by_contra hnone
    have hall : ∀ echo ∈ echoes, echo.2 = true := by
      intro echo hmem
      by_contra hdenied
      exact hnone ⟨echo, hmem, by simpa using hdenied⟩
    have hbound := h.granted.mp hall now now le_rfl
    have hcount : echoes.countP (fun echo ↦ now ≤ echo.1 ∧ echo.1 ≤ now) = echoes.length :=
      List.countP_eq_length.mpr fun echo hmem ↦ by simp [hnow echo hmem]
    rw [hallowance, Nat.cast_le, hcount] at hbound
    exact absurd hbound (by omega)

theorem servedAtRate_of_answers {start : Time} {echoes : List (Time × Bool)}
    (hchrono : (echoes.map Prod.fst).Pairwise
      fun first second ↦ tokenClock first ≤ tokenClock second)
    (hstart : ∀ request ∈ echoes.map Prod.fst, tokenClock start ≤ tokenClock request)
    (hanswers : TokenBucket.answers 1000 1 tokenClock (.full 1000 (tokenClock start))
      (echoes.map Prod.fst) = echoes) : ServedAtRate echoes where
  bounded first last hle := by
    have hfull : (0 : ℚ) ≤ (TokenBucket.full 1000 (tokenClock start)).levelAt 1000
        (tokenClock start) := by
      rw [TokenBucket.levelAt_full le_rfl]
      norm_num
    have hcount := TokenBucket.admittedIn_le (by norm_num : (0 : ℚ) ≤ 1) hchrono hstart hfull
      ((tokenClock_le_iff first last).mpr hle)
    rw [hanswers, capacity_add_clock, nsmul_one] at hcount
    simpa only [TokenBucket.admittedIn, tokenClock_le_iff] using hcount
  granted := by
    have hgranted := TokenBucket.forall_admitted_iff (by norm_num : (0 : ℚ) ≤ 1)
      (by norm_num : (0 : ℚ) ≤ 1000) hchrono hstart
    rw [hanswers] at hgranted
    rw [hgranted]
    unfold TokenBucket.Conforms TokenBucket.requestsIn
    apply forall₂_congr
    intro first last
    rw [tokenClock_le_iff, capacity_add_clock, nsmul_one, List.countP_map]
    simp only [tokenClock_le_iff]
    rfl

end Application

namespace Cluster

variable {ι : Type*}

/-- A turn answers at most one verdict, at the time of the turn. -/
theorem times_entriesOf (cluster : Cluster ι) (move : Move ι) :
    (cluster.entriesOf move).map (fun entry ↦ entry.2.1.now) = [] ∨
      ∃ client env, move = .turn client env ∧
        (cluster.entriesOf move).map (fun entry ↦ entry.2.1.now) = [env.now] := by
  cases move with
  | turn client env =>
    unfold entriesOf answered
    dsimp only
    split
    · cases HttpRequest.parse (cluster.connection client).server.inBuffer with
      | needMore => exact .inl rfl
      | error code => exact .inr ⟨client, env, rfl, rfl⟩
      | ok request consumed => exact .inr ⟨client, env, rfl, rfl⟩
    · exact .inl rfl
  | receive client recvs | flush client sends | write client sends | close client => exact .inl rfl

theorem le_clockAfter {now : Time} {move : Move ι} (h : move.Meets now) :
    now ≤ move.clockAfter now := by
  cases move with
  | turn client env => exact Int.le_trans h.1 h.2
  | receive client recvs | flush client sends | write client sends | close client =>
    exact Int.le_refl now

variable [DecidableEq ι]

/-- The entries of a journal stand in the order of their times. -/
theorem times_journal (cluster : Cluster ι) {now : Time} {moves : List (Move ι)}
    (hmoves : Always (fun now move ↦ move.clockAfter now) (fun now move ↦ move.Meets now) now moves) :
    (∀ time ∈ (journal cluster moves).map (fun entry ↦ entry.2.1.now), now ≤ time) ∧
      ((journal cluster moves).map fun entry ↦ entry.2.1.now).Pairwise (· ≤ ·) := by
  induction moves generalizing now cluster with
  | nil => exact ⟨fun time hmem ↦ absurd hmem List.not_mem_nil, .nil⟩
  | cons move moves ih =>
    obtain ⟨hmeets, hrest⟩ := hmoves
    obtain ⟨hafter, hchrono⟩ := ih (cluster.step move) hrest
    rw [journal, List.map_append]
    rcases times_entriesOf cluster move with hnone | ⟨client, env, rfl, hone⟩
    · have hle := le_clockAfter hmeets
      rw [hnone, List.nil_append]
      exact ⟨fun time hmem ↦ Int.le_trans hle (hafter time hmem), hchrono⟩
    · have hlater (time : Time) (hmem : time ∈ (journal (cluster.step (.turn client env)) moves).map
          fun entry ↦ entry.2.1.now) : env.now ≤ time :=
        Int.le_trans hmeets.2 (hafter time hmem)
      rw [hone, List.singleton_append]
      constructor
      · intro time hmem
        rcases List.mem_cons.mp hmem with rfl | hmem
        · exact hmeets.1
        · exact Int.le_trans hmeets.1 (hlater time hmem)
      · exact List.pairwise_cons.mpr ⟨hlater, hchrono⟩

/-- The echo requests on the connections of an address, with their answers. -/
def echoes (clientIps : ι → Bytes) (clientIp : Bytes) (entries : List (ι × (Arrival × Message))) :
    List (Time × Bool) :=
  entries.filterMap fun entry ↦
    if clientIps entry.1 = clientIp then Application.echoAnswer entry.2 else none

omit [DecidableEq ι] in
theorem echoes_eq {clientIps : ι → Bytes} {entries : List (ι × (Arrival × Message))}
    (h : ∀ entry ∈ entries, entry.2.1.clientIp = clientIps entry.1) (clientIp : Bytes) :
    echoes clientIps clientIp entries = Application.echoes clientIp (entries.map Prod.snd) := by
  unfold echoes Application.echoes Application.echoEntry
  rw [List.filterMap_map]
  apply List.filterMap_congr
  intro entry hmem
  rw [Function.comp_apply, h entry hmem]

omit [DecidableEq ι] in
theorem echoes_cons {clientIps : ι → Bytes} {clientIp text : Bytes} {entry : ι × (Arrival × Message)}
    (haddress : clientIps entry.1 = clientIp) (hecho : entry.2.1.operation = .ok (.echo text))
    (entries : List (ι × (Arrival × Message))) :
    echoes clientIps clientIp (entry :: entries) =
      (entry.2.1.now, decide (entry.2.2.statusCode = 200)) :: echoes clientIps clientIp entries := by
  unfold echoes
  rw [List.filterMap_cons_some]
  rw [if_pos haddress, Application.echoAnswer, hecho]

/-- Whatever other addresses do, and on however many connections its requests arrive, an address is
admitted at most at its rate in every window of time, and it is never denied exactly if its echo
requests keep to this rate. -/
theorem echoes_served_at_rate {services : Services} (hlimiter : services.limiter = .new) (fds : ι → ℕ)
    (clientIps : ι → Bytes) {start : Time} {moves : List (Move ι)}
    (hmoves : Always (fun now move ↦ move.clockAfter now) (fun now move ↦ move.Meets now) start moves)
    (clientIp : Bytes) :
    Application.ServedAtRate (echoes clientIps clientIp (journal (new services fds clientIps) moves)) := by
  obtain ⟨later, hlinearized⟩ := (linearized_new hlimiter fds clientIps start).run hmoves
  obtain ⟨last, hexecutes, -⟩ := hlinearized.executes
  obtain ⟨hafter, hchrono⟩ := times_journal (new services fds clientIps) hmoves
  have hmap : ((journal (new services fds clientIps) moves).map Prod.snd).map
      (fun entry ↦ entry.1.now) =
        (journal (new services fds clientIps) moves).map fun entry ↦ entry.2.1.now := List.map_map
  rw [← hmap] at hafter hchrono
  obtain ⟨hordered, hlater, hanswers⟩ :=
    Application.answers_echoes hexecutes hafter hchrono clientIp
  rw [echoes_eq ((addressed_new services fds clientIps).journal moves)]
  exact Application.servedAtRate_of_answers hordered hlater hanswers

/-- A request for an echo. -/
def echoText : Bytes := lit "POST /echo HTTP/1.1\r\nContent-Length: 2\r\n\r\nhi"

/-- The request arrives on each of these connections, and is answered, all at one time. -/
def crowdMoves (clients : List ℕ) : List (Move ℕ) :=
  clients.flatMap fun client ↦
    [.receive client [.received echoText], .turn client ⟨0, 0, fun _ ↦ none⟩]

/-- The connections of the crowd, which come from one address. -/
def crowd : Cluster ℕ := new ⟨⟨∅⟩, .new, .static⟩ (fun _ ↦ 7) fun _ ↦ lit "10.0.0.1"

theorem parse_echoText : ∃ request consumed,
    HttpRequest.parse echoText = .ok request consumed ∧ operationOf request = .echo (lit "hi") :=
  ⟨_, _, rfl, rfl⟩

/-- One of the crowd. -/
theorem journal_crowdMoves {cluster : Cluster ℕ} {client : ℕ}
    (hclient : cluster.connection client = crowd.connection client) :
    (∃ arrival message, journal cluster (crowdMoves [client]) = [(client, arrival, message)] ∧
      arrival.operation = .ok (.echo (lit "hi")) ∧ arrival.now = 0) ∧
    ∀ other, other ≠ client →
      (run step cluster (crowdMoves [client])).connection other = cluster.connection other := by
  obtain ⟨request, consumed, hparse, hoperation⟩ := parse_echoText
  have hserver : (cluster.session client).server = HttpServer.new 7 (lit "10.0.0.1") :=
    congrArg Connection.server hclient
  have hreceived : ((cluster.session client).recvIntoBuffer [.received echoText]).server =
      { HttpServer.new 7 (lit "10.0.0.1") with inBuffer := echoText } := by
    rw [Session.recvIntoBuffer_server, hserver]
    rfl
  have hreceive : cluster.step (.receive client [.received echoText]) = cluster.put client
      ((cluster.session client).recvIntoBuffer [.received echoText]) .processing := by
    have hidle : (cluster.connection client).phase = .idle := by rw [hclient]; rfl
    have hopen : ¬ (cluster.connection client).server.closed = true := by rw [hclient]; exact Bool.false_ne_true
    unfold Cluster.step
    dsimp only
    rw [if_pos hidle, receive, if_neg hopen]
    dsimp only
    rw [hreceived]
    rfl
  have hmoves : crowdMoves [client] =
      [.receive client [.received echoText], .turn client ⟨0, 0, fun _ ↦ none⟩] := rfl
  rw [hmoves, run_cons, run_cons, run_nil, hreceive]
  constructor
  · let message := Session.message (TurnEnv.toEnv ⟨0, 0, fun _ ↦ none⟩) request.keepAlive
      (lit "10.0.0.1") ((cluster.session client).recvIntoBuffer [.received echoText]).services request
    have hanswered : (cluster.step (.receive client [.received echoText])).answered client
        ⟨0, 0, fun _ ↦ none⟩ =
          [(client, ⟨.ok request, lit "10.0.0.1", 0, fun _ ↦ none⟩, message)] := by
      unfold answered
      dsimp only
      rw [hreceive, put_connection_self, hreceived, hparse]
      rfl
    refine ⟨⟨.ok request, lit "10.0.0.1", 0, fun _ ↦ none⟩, message, ?_, ?_, rfl⟩
    · rw [journal, journal, journal, List.append_nil]
      unfold entriesOf
      dsimp only
      rw [hanswered, hreceive, put_connection_self, if_pos rfl]
      rfl
    · rw [← hoperation]
      rfl
  · intro other hother
    rw [connection_turn_of_ne _ hother]
    exact put_connection_of_ne _ _ hother

theorem always_crowdMoves (clients : List ℕ) :
    Always (fun now move ↦ move.clockAfter now) (fun now move ↦ move.Meets now) 0
      (crowdMoves clients) := by
  induction clients with
  | nil => exact trivial
  | cons client clients ih => exact ⟨trivial, ⟨le_rfl, le_rfl⟩, ih⟩

/-- Every request of the crowd is answered. -/
theorem times_crowdMoves {cluster : Cluster ℕ} {clients : List ℕ} (hnodup : clients.Nodup)
    (hfresh : ∀ client ∈ clients, cluster.connection client = crowd.connection client) :
    (echoes (fun _ ↦ lit "10.0.0.1") (lit "10.0.0.1")
      (journal cluster (crowdMoves clients))).map Prod.fst = List.replicate clients.length 0 := by
  induction clients generalizing cluster with
  | nil => rfl
  | cons client clients ih =>
    obtain ⟨hnotMem, hnodup⟩ := List.nodup_cons.mp hnodup
    obtain ⟨hclient, hfresh⟩ := List.forall_mem_cons.mp hfresh
    have hsplit : crowdMoves (client :: clients) = crowdMoves [client] ++ crowdMoves clients := by
      simp [crowdMoves]
    obtain ⟨⟨arrival, message, hjournal, hoperation, hnow⟩, hothers⟩ := journal_crowdMoves hclient
    rw [hsplit, journal_append, hjournal]
    rw [List.singleton_append, echoes_cons rfl hoperation, List.map_cons, ih hnodup, hnow]
    · rfl
    · intro other hmem
      rw [hothers other (fun heq ↦ hnotMem (heq ▸ hmem))]
      exact hfresh other hmem

/-- A thousand of the crowd are served, and the next request at that moment is denied. -/
theorem echoes_served_at_rate_crowd :
    let echoes := echoes (fun _ ↦ lit "10.0.0.1") (lit "10.0.0.1")
      (journal crowd (crowdMoves (List.range 1001)))
    Application.ServedAtRate echoes ∧ echoes.length = 1001 ∧ echoes.countP Prod.snd ≤ 1000 ∧
      ∃ echo ∈ echoes, echo.2 = false := by
  have hnodup : (List.range 1001).Nodup := List.nodup_range
  have hclients : (List.range 1001).length = 1001 := List.length_range
  generalize List.range 1001 = clients at hnodup hclients ⊢
  intro echoes
  have hserved : Application.ServedAtRate echoes :=
    @echoes_served_at_rate ℕ _ ⟨⟨∅⟩, .new, .static⟩ rfl (fun _ ↦ 7) (fun _ ↦ lit "10.0.0.1") 0
      (crowdMoves clients) (always_crowdMoves clients) (lit "10.0.0.1")
  have htimes : echoes.map Prod.fst = List.replicate 1001 0 := by
    rw [← hclients]
    exact times_crowdMoves hnodup fun _ _ ↦ rfl
  have hnow : ∀ echo ∈ echoes, echo.1 = 0 := by
    intro echo hmem
    have hfirst := List.mem_map_of_mem (f := Prod.fst) hmem
    rw [htimes] at hfirst
    exact List.eq_of_mem_replicate hfirst
  have hlength : echoes.length = 1001 := by
    rw [← List.length_map Prod.fst, htimes, List.length_replicate]
  exact ⟨hserved, hlength, hserved.burst hnow (by omega)⟩

end Cluster

end WebServer
