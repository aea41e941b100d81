import WebServer.Connection.Application
import WebServer.Connection.Exchanges
import WebServer.Connection.HalfClose
import WebServer.Http.HeaderLines

/-!
# All connections against one sequential object

The journal of a run lists the verdicts that the turns of all connections answer, with their answers,
in the order of the turns. In that order they are an execution of the application, and the part of each
connection is what this connection has read and written. The journal only grows, so an answer that has
left the server stands in front of every request that arrives later.
-/

namespace WebServer

open Bytes HttpServer OutSegment Execution

/-- The mark that a verdict leaves in the trace of its connection. -/
def Arrival.cause (arrival : Arrival) : Action :=
  match arrival.verdict with
  | .ok request => .dispatch request
  | .error code => .reject code

namespace Move

variable {ι : Type*}

/-- The turns of all connections read one clock. -/
def Meets (now : Time) : Move ι → Prop
  | .turn _ env => now ≤ env.now ∧ env.now ≤ env.cleanupNow
  | _ => True

instance (now : Time) : ∀ move : Move ι, Decidable (move.Meets now)
  | .turn _ _ => inferInstanceAs (Decidable (_ ∧ _))
  | .receive .. | .flush .. | .write .. | .close _ => inferInstanceAs (Decidable True)

def clockAfter (now : Time) : Move ι → Time
  | .turn _ env => env.cleanupNow
  | _ => now

end Move

/-- What one connection has read and written: the verdicts and answers of its part of the journal. -/
structure Session.Wrote (session : Session) (entries : List (Arrival × Message)) : Prop where
  verdicts : verdicts session.trace = entries.map fun entry ↦ entry.1.cause
  encodes : EncodesAll (entries.map Prod.snd) (queued session.trace)
  ledger : session.Ledger []

namespace Session.Wrote

variable {session session' : Session} {entries new : List (Arrival × Message)}

theorem congr (h : session.Wrote entries) (hserver : session'.server = session.server)
    (htrace : session'.trace = session.trace) : session'.Wrote entries where
  verdicts := htrace ▸ h.verdicts
  encodes := htrace ▸ h.encodes
  ledger := h.ledger.of_same htrace (by rw [hserver])

theorem append (h : session.Wrote entries)
    (haccounts : session.Accounts session' (new.map fun entry ↦ ⟨entry.1.cause, entry.2⟩))
    (hledger : session'.Ledger []) : session'.Wrote (entries ++ new) where
  verdicts := by
    rw [haccounts.1, h.verdicts, List.map_append, List.map_map]
    rfl
  encodes := by
    obtain ⟨-, text, htext, hencodes⟩ := haccounts
    rw [List.map_map] at hencodes
    rw [htext, List.map_append]
    exact h.encodes.append hencodes
  ledger := hledger

/-- A client that decodes what has been sent to it gets the first of the answers. -/
theorem decoded (h : session.Wrote entries) :
    (responseFramer.drain (accepted session.trace)).messages <+: entries.map Prod.snd := by
  have hqueued := h.encodes.reads.drain_of_needMore rfl
  obtain ⟨unsent, hunsent⟩ := h.ledger.balanced.accepted_prefix
  have hdecoded := responseFramer.drain_messages_prefix (accepted session.trace) unsent
  rw [hunsent, denoteQueue_nil, List.nil_append, hqueued] at hdecoded
  exact hdecoded

end Session.Wrote

namespace Cluster

variable {ι : Type*} [DecidableEq ι]

/-- The verdict that the next turn of a connection answers, and the answer. -/
def answered (cluster : Cluster ι) (client : ι) (env : TurnEnv) : List (ι × (Arrival × Message)) :=
  let server := (cluster.connection client).server
  match HttpRequest.parse server.inBuffer with
  | .needMore => []
  | .error code =>
    [(client, (⟨.error code, server.clientIp, env.now, env.openFile⟩,
      responseMessage (Session.parseErrorResponse code)))]
  | .ok request _ =>
    [(client, (⟨.ok request, server.clientIp, env.now, env.openFile⟩,
      Session.message env.toEnv request.keepAlive server.clientIp cluster.services request))]

def entriesOf (cluster : Cluster ι) : Move ι → List (ι × (Arrival × Message))
  | .turn client env =>
    if (cluster.connection client).phase = .processing then cluster.answered client env else []
  | _ => []

def journal : Cluster ι → List (Move ι) → List (ι × (Arrival × Message))
  | _, [] => []
  | cluster, move :: moves => cluster.entriesOf move ++ journal (cluster.step move) moves

theorem journal_append (cluster : Cluster ι) (first second : List (Move ι)) :
    journal cluster (first ++ second) =
      journal cluster first ++ journal (run step cluster first) second := by
  induction first generalizing cluster with
  | nil => rfl
  | cons move first ih =>
    rw [List.cons_append, journal, journal, ih, List.append_assoc]
    rfl

variable {cluster : Cluster ι} {client other : ι} {env : TurnEnv}

/-- The entries of a turn are its exchanges. -/
theorem turnExchanges_eq (cluster : Cluster ι) (client : ι) (env : TurnEnv) :
    Session.turnExchanges env.toEnv (cluster.session client) =
      (partOf client (cluster.answered client env)).map fun entry ↦ ⟨entry.1.cause, entry.2⟩ := by
  have hserver : (cluster.session client).server = (cluster.connection client).server := rfl
  unfold Session.turnExchanges answered
  dsimp only
  rw [hserver]
  cases HttpRequest.parse (cluster.connection client).server.inBuffer with
  | needMore => rfl
  | error code =>
    rw [partOf_singleton_self]
    rfl
  | ok request consumed =>
    rw [partOf_singleton_self]
    rfl

theorem partOf_answered_of_ne (h : other ≠ client) :
    partOf other (cluster.answered client env) = [] := by
  unfold answered
  dsimp only
  cases HttpRequest.parse (cluster.connection client).server.inBuffer with
  | needMore => rfl
  | error code => exact partOf_singleton_of_ne (Ne.symm h) _
  | ok request consumed => exact partOf_singleton_of_ne (Ne.symm h) _

/-- The journal so far is an execution of the application, and the connections have read and written
their parts. -/
structure Linearized (root : Bytes) (start : Application) (now : Time) (cluster : Cluster ι)
    (journal : List (ι × (Arrival × Message))) : Prop where
  executes : ∃ app, (Application.object root).Executes start (journal.map Prod.snd) app ∧
    app.Represents root cluster.services now
  wrote : ∀ client, (cluster.session client).Wrote (partOf client journal)

theorem linearized_new {services : Services} (hlimiter : services.limiter = .new) (fds : ι → ℕ)
    (clientIps : ι → Bytes) (now : Time) :
    Linearized services.staticRoot.path (Application.initial services now) now
      (new services fds clientIps) [] where
  executes := ⟨_, .nil _, Application.represents_initial hlimiter now⟩
  wrote client :=
    ⟨rfl, .nil, Session.ledger_start (HttpServer.new (fds client) (clientIps client)) services⟩

variable {root : Bytes} {start : Application} {now : Time} {entries : List (ι × (Arrival × Message))}

/-- A move of a connection that answers nothing. -/
theorem Linearized.put (h : Linearized root start now cluster entries) {session : Session}
    (hservices : session.services = cluster.services)
    (hsilent : (cluster.session client).Accounts session []) (hledger : session.Ledger [])
    (phase : Phase) : Linearized root start now (cluster.put client session phase) entries where
  executes := by
    rw [put_services, hservices]
    exact h.executes
  wrote other := by
    by_cases hother : other = client
    · subst hother
      rw [session_put]
      have hwrote : session.Wrote (partOf other entries ++ []) :=
        (h.wrote other).append hsilent hledger
      rwa [List.append_nil] at hwrote
    · have hconnection : (cluster.put client session phase).connection other =
          cluster.connection other := put_connection_of_ne session phase hother
      exact (h.wrote other).congr (congrArg Connection.server hconnection)
        (congrArg Connection.trace hconnection)

/-- Every move but a turn answers nothing. -/
theorem Linearized.quiet (h : Linearized root start now cluster entries) {move : Move ι}
    (hmove : ∀ client env, move ≠ .turn client env) :
    Linearized root start now (cluster.step move) entries := by
  have hacts := acts_step cluster move
  generalize cluster.step move = next at hacts ⊢
  cases hacts with
  | skip => exact h
  | @receive client recvs hidle hopen =>
    exact h.put (Session.recvIntoBuffer_extends (cluster.session client) recvs).2
      (Session.accounts_recvIntoBuffer (cluster.session client) recvs)
      ((h.wrote client).ledger.recvIntoBuffer recvs) _
  | @turn client env => exact absurd rfl (hmove client env)
  | @write client sends =>
    have hledger := (h.wrote client).ledger.step (.write sends)
    have haccounts := Session.accounts_step (cluster.session client) (.write sends)
    have hservices : ((cluster.session client).handleWrite sends).services = cluster.services := by
      unfold Session.handleWrite
      split
      · rfl
      · exact (Session.tryFlush_flushed sends (cluster.session client)).services
    exact h.put hservices haccounts hledger _
  | @close client hidle =>
    have hledger := (h.wrote client).ledger.step .close
    have haccounts := Session.accounts_step (cluster.session client) .close
    have hservices : ((cluster.session client).step .close).services = cluster.services := by
      unfold Session.step
      dsimp only
      split <;> rfl
    exact h.put hservices haccounts hledger _

/-- The answer of a turn is one of the application. -/
theorem Linearized.executes_turn (h : Linearized root start now cluster entries)
    (hnow : now ≤ env.now) (hclean : env.now ≤ env.cleanupNow) {session : Session}
    (hturn : Session.processTurn env.toEnv (cluster.session client) = .next session ∨
      Session.processTurn env.toEnv (cluster.session client) = .exit session) :
    ∃ app, (Application.object root).Executes start
        ((entries ++ cluster.answered client env).map Prod.snd) app ∧
      app.Represents root session.services env.cleanupNow := by
  obtain ⟨app, hexecutes, hrepresents⟩ := h.executes
  have hlater := hrepresents.mono (Int.le_trans hnow hclean)
  have hserver : (cluster.session client).server = (cluster.connection client).server := rfl
  have hok {request : HttpRequest} {consumed : ℕ}
      (hparse : HttpRequest.parse (cluster.session client).server.inBuffer = .ok request consumed) :
      ∃ app, (Application.object root).Executes start
          ((entries ++ cluster.answered client env).map Prod.snd) app ∧
        app.Represents root
          ((cluster.session client).afterRequest env.toEnv request consumed).services
          env.cleanupNow := by
    obtain ⟨next, hanswers, hnext⟩ := hrepresents.answers hnow hclean
      (HttpRequest.parse_path hparse).1 request.keepAlive (cluster.session client).server.clientIp
    have hentries : cluster.answered client env = [(client, (⟨.ok request,
        (cluster.connection client).server.clientIp, env.now, env.openFile⟩,
        Session.message env.toEnv request.keepAlive (cluster.connection client).server.clientIp
          cluster.services request))] := by
      rw [hserver] at hparse
      unfold answered
      dsimp only
      rw [hparse]
    rw [hentries, List.map_append]
    exact ⟨next, hexecutes.append (.singleton hanswers), hnext⟩
  have hturned := Session.processTurn_turned env.toEnv (cluster.session client)
  generalize Session.processTurn env.toEnv (cluster.session client) = turned at hturn hturned
  cases hturned with
  | starved hparse =>
    obtain rfl : cluster.session client = session := by simpa using hturn
    have hentries : cluster.answered client env = [] := by
      rw [hserver] at hparse
      unfold answered
      dsimp only
      rw [hparse]
    rw [hentries, List.append_nil]
    exact ⟨app, hexecutes, hlater⟩
  | @refused code hparse =>
    obtain rfl : (cluster.session client).reject code = session := by simpa using hturn
    have hentries : cluster.answered client env = [(client, (⟨.error code,
        (cluster.connection client).server.clientIp, env.now, env.openFile⟩,
        responseMessage (Session.parseErrorResponse code)))] := by
      rw [hserver] at hparse
      unfold answered
      dsimp only
      rw [hparse]
    rw [hentries, List.map_append]
    exact ⟨app, hexecutes.append (.singleton (.malformed rfl)), hlater⟩
  | @last request consumed hparse | @next request consumed hparse =>
    obtain rfl : (cluster.session client).afterRequest env.toEnv request consumed = session := by
      simpa using hturn
    exact hok hparse
  | @full request consumed hparse =>
    obtain rfl : ((cluster.session client).afterRequest env.toEnv request consumed).outQueueExceeded =
      session := by simpa using hturn
    exact hok hparse

theorem ledger_processTurn {env : Env} {session session' : Session} (h : session.Ledger [])
    (hturn : Session.processTurn env session = .next session' ∨
      Session.processTurn env session = .exit session') : session'.Ledger [] := by
  have hturned := Session.processTurn_turned env session
  generalize Session.processTurn env session = turned at hturn hturned
  cases hturned with
  | starved hparse =>
    obtain rfl : session = session' := by simpa using hturn
    exact h
  | @refused code hparse =>
    obtain rfl : session.reject code = session' := by simpa using hturn
    exact h.reject code
  | @last request consumed hparse | @next request consumed hparse =>
    obtain rfl : session.afterRequest env request consumed = session' := by simpa using hturn
    exact h.afterRequest env request consumed
  | @full request consumed hparse =>
    obtain rfl : (session.afterRequest env request consumed).outQueueExceeded = session' := by
      simpa using hturn
    exact ((h.afterRequest env request consumed).emit_silent (.log ..) ⟨rfl, rfl⟩).setServer _ rfl

theorem Linearized.turn (h : Linearized root start now cluster entries) (hnow : now ≤ env.now)
    (hclean : env.now ≤ env.cleanupNow) :
    Linearized root start env.cleanupNow (cluster.turn client env)
      (entries ++ cluster.answered client env) := by
  have hput {session : Session} (phase : Phase)
      (hturn : Session.processTurn env.toEnv (cluster.session client) = .next session ∨
        Session.processTurn env.toEnv (cluster.session client) = .exit session) :
      Linearized root start env.cleanupNow ((cluster.record client).put client session phase)
        (entries ++ cluster.answered client env) := by
    refine ⟨h.executes_turn hnow hclean hturn, fun other ↦ ?_⟩
    rw [partOf_append]
    by_cases hother : other = client
    · subst hother
      rw [session_put]
      have haccounts := Session.accounts_processTurn hturn
      rw [turnExchanges_eq] at haccounts
      exact (h.wrote other).append haccounts (ledger_processTurn (h.wrote other).ledger hturn)
    · have hconnection : ((cluster.record client).put client session phase).connection other =
          cluster.connection other := put_connection_of_ne session phase hother
      rw [partOf_answered_of_ne hother, List.append_nil]
      exact (h.wrote other).congr (congrArg Connection.server hconnection)
        (congrArg Connection.trace hconnection)
  unfold Cluster.turn
  cases hturn : Session.processTurn env.toEnv (cluster.session client) with
  | next session => exact hput .processing (.inl hturn)
  | exit session => exact hput .flushing (.inr hturn)

/-- A move adds what it answers. -/
theorem Linearized.step (h : Linearized root start now cluster entries) (move : Move ι)
    (hmeets : move.Meets now) :
    Linearized root start (move.clockAfter now) (cluster.step move)
      (entries ++ cluster.entriesOf move) := by
  cases move with
  | turn client env =>
    obtain ⟨hnow, hclean⟩ := hmeets
    unfold Cluster.step entriesOf
    dsimp only
    split
    · exact h.turn hnow hclean
    · rw [List.append_nil]
      obtain ⟨app, hexecutes, hrepresents⟩ := h.executes
      exact ⟨⟨app, hexecutes, hrepresents.mono (Int.le_trans hnow hclean)⟩, h.wrote⟩
  | receive client recvs | flush client sends | write client sends | close client =>
    have hnone : entries ++ [] = entries := List.append_nil entries
    exact hnone.symm ▸ h.quiet (by simp)

theorem Linearized.run (h : Linearized root start now cluster entries) {moves : List (Move ι)}
    (hmoves : Always (fun now move ↦ move.clockAfter now) (fun now move ↦ move.Meets now) now moves) :
    ∃ later, Linearized root start later (Execution.run Cluster.step cluster moves)
      (entries ++ journal cluster moves) := by
  induction moves generalizing now cluster entries with
  | nil =>
    rw [journal, List.append_nil]
    exact ⟨now, h⟩
  | cons move moves ih =>
    obtain ⟨hmeets, hrest⟩ := hmoves
    rw [run_cons, journal, ← List.append_assoc]
    exact ih (h.step move hmeets) hrest

/-! ## Whose entry it is -/

/-- Every connection has the address that `accept` gave it. -/
def Addressed (clientIps : ι → Bytes) (cluster : Cluster ι) : Prop :=
  ∀ client, (cluster.connection client).server.clientIp = clientIps client

variable {clientIps : ι → Bytes}

theorem Addressed.put (h : cluster.Addressed clientIps) {session : Session}
    (hsame : session.server.clientIp = (cluster.connection client).server.clientIp) (phase : Phase) :
    (cluster.put client session phase).Addressed clientIps := by
  intro other
  by_cases hother : other = client
  · subst hother
    rw [put_connection_self]
    exact hsame.trans (h other)
  · rw [put_connection_of_ne session phase hother]
    exact h other

theorem Addressed.step (h : cluster.Addressed clientIps) (move : Move ι) :
    (cluster.step move).Addressed clientIps := by
  have hacts := acts_step cluster move
  generalize cluster.step move = next at hacts ⊢
  cases hacts with
  | skip => exact h
  | @receive client recvs =>
    apply h.put
    rw [Session.recvIntoBuffer_server]
    rfl
  | @turn client env =>
    have hrecord : (cluster.record client).Addressed clientIps := h
    unfold Cluster.turn
    cases hturn : Session.processTurn env.toEnv (cluster.session client) with
    | next session => exact hrecord.put (Session.clientIp_processTurn (.inl hturn)) _
    | exit session => exact hrecord.put (Session.clientIp_processTurn (.inr hturn)) _
  | @write client sends => exact h.put (Session.clientIp_step (cluster.session client) (.write sends)) _
  | @close client => exact h.put (Session.clientIp_step (cluster.session client) .close) _

omit [DecidableEq ι] in
theorem Addressed.answered (h : cluster.Addressed clientIps) (client : ι) (env : TurnEnv) :
    ∀ entry ∈ cluster.answered client env, entry.2.1.clientIp = clientIps entry.1 := by
  unfold Cluster.answered
  dsimp only
  cases HttpRequest.parse (cluster.connection client).server.inBuffer with
  | needMore => simp
  | error code => simp [h client]
  | ok request consumed => simp [h client]

/-- The arrivals of a journal have the addresses of their connections. -/
theorem Addressed.journal (h : cluster.Addressed clientIps) (moves : List (Move ι)) :
    ∀ entry ∈ Cluster.journal cluster moves, entry.2.1.clientIp = clientIps entry.1 := by
  induction moves generalizing cluster with
  | nil => simp [Cluster.journal]
  | cons move moves ih =>
    rw [Cluster.journal, List.forall_mem_append]
    refine ⟨?_, ih (h.step move)⟩
    cases move with
    | turn client env =>
      unfold entriesOf
      dsimp only
      split
      · exact h.answered client env
      · simp
    | receive | flush | write | close => simp [entriesOf]

omit [DecidableEq ι] in
theorem addressed_new (services : Services) (fds : ι → ℕ) (clientIps : ι → Bytes) :
    (new services fds clientIps).Addressed clientIps := fun _ ↦ rfl

/-- To its clients the process is the application, which answers the verdicts of the journal one after
the other: every connection has read and answered its part of the journal in order, from the address
that `accept` gave it, and what has been sent on it are the first of these answers. -/
structure ActsAsApplication (root : Bytes) (start : Application) (clientIps : ι → Bytes)
    (cluster : Cluster ι) (journal : List (ι × (Arrival × Message))) : Prop where
  addresses : ∀ entry ∈ journal, entry.2.1.clientIp = clientIps entry.1
  executes : ∃ last now, (Application.object root).Executes start (journal.map Prod.snd) last ∧
    last.Represents root cluster.services now
  verdicts : ∀ client, verdicts (cluster.connection client).trace =
    (partOf client journal).map fun entry ↦ entry.1.cause
  encodes : ∀ client, EncodesAll ((partOf client journal).map Prod.snd)
    (queued (cluster.connection client).trace)
  decoded : ∀ client, (responseFramer.drain (accepted (cluster.connection client).trace)).messages <+:
    (partOf client journal).map Prod.snd

theorem Linearized.actsAsApplication (h : Linearized root start now cluster entries)
    (haddresses : ∀ entry ∈ entries, entry.2.1.clientIp = clientIps entry.1) :
    ActsAsApplication root start clientIps cluster entries where
  addresses := haddresses
  executes := by
    obtain ⟨last, hexecutes, hrepresents⟩ := h.executes
    exact ⟨last, now, hexecutes, hrepresents⟩
  verdicts client := (h.wrote client).verdicts
  encodes client := (h.wrote client).encodes
  decoded client := (h.wrote client).decoded

/-- Whatever clients send on any number of connections, and however the moves of the connections are
interleaved, at every moment of the run the process acts as one application; the journal at a moment is
the beginning of every later one. -/
theorem acts_as_application {services : Services} (hlimiter : services.limiter = .new) (fds : ι → ℕ)
    (clientIps : ι → Bytes) {start : Time} {moves : List (Move ι)}
    (hmoves : Always (fun now move ↦ move.clockAfter now) (fun now move ↦ move.Meets now) start moves)
    {moment : List (Move ι)} (hmoment : moment <+: moves) :
    journal (new services fds clientIps) moment <+: journal (new services fds clientIps) moves ∧
      ActsAsApplication services.staticRoot.path (Application.initial services start) clientIps
        (run step (new services fds clientIps) moment)
        (journal (new services fds clientIps) moment) := by
  obtain ⟨later, rfl⟩ := hmoment
  rw [journal_append]
  obtain ⟨now, hlinearized⟩ :=
    (linearized_new hlimiter fds clientIps start).run (always_append.mp hmoves).1
  have haddresses := (addressed_new services fds clientIps).journal moment
  exact ⟨List.prefix_append .., hlinearized.actsAsApplication haddresses⟩

/-- One client stores a value while the other, in one pipeline, lists the store and asks for an echo. -/
def pipelinedMoves : List (Move Bool) :=
  [.receive false [.received
      (lit "GET /kv HTTP/1.1\r\n\r\nPOST /echo HTTP/1.1\r\nContent-Length: 2\r\n\r\nhi")],
    .receive true [.received (lit "PUT /kv/a HTTP/1.1\r\nContent-Length: 1\r\n\r\n1")],
    .turn true ⟨5, 6, fun _ ↦ none⟩, .turn false ⟨6, 8, fun _ ↦ none⟩,
    .turn false ⟨9, 9, fun _ ↦ none⟩, .flush true fun _ ↦ ⟨1000, 0⟩,
    .turn false ⟨9, 9, fun _ ↦ none⟩, .flush false fun _ ↦ ⟨1000, 0⟩]

theorem acts_as_application_pipelinedMoves :
    (responseFramer.drain (accepted ((run step (new ⟨⟨∅⟩, .new, .static⟩ (fun _ ↦ 7)
      (fun _ ↦ lit "10.0.0.1")) pipelinedMoves).connection false).trace)).messages <+:
        [⟨200, lit "a=1\n"⟩, ⟨200, lit "Received POST data: hi"⟩] := by
  have hacts := (@acts_as_application Bool _ ⟨⟨∅⟩, .new, .static⟩ rfl (fun _ ↦ 7)
    (fun _ ↦ lit "10.0.0.1") 0 pipelinedMoves (by decide) pipelinedMoves
    (List.prefix_refl pipelinedMoves)).2
  have hanswers : (partOf false (journal (new ⟨⟨∅⟩, .new, .static⟩ (fun _ ↦ 7)
      (fun _ ↦ lit "10.0.0.1")) pipelinedMoves)).map Prod.snd =
        [⟨200, lit "a=1\n"⟩, ⟨200, lit "Received POST data: hi"⟩] := by
    decide +kernel
  have hdecoded := hacts.decoded false
  rwa [hanswers] at hdecoded

end Cluster

end WebServer
