import WebServer.Connection.Input
import WebServer.Connection.WriteInterest

/-!
# A socket under edge-triggered epoll

What the kernel keeps for a connection: the bytes that have arrived, whether the peer has ended its side,
whether a call was told to wait for room, and the entry of epoll, which reports a change of the socket
once. The network moves at any time; `Socket.answer` says which results a call can have and what it
changes, and `Socket.Meets` that a list of calls was answered while the network moved in between.

No assumption is made about how much a call moves. The kernel says `EAGAIN` to `recv` only when nothing
is there, and after it has said `EAGAIN` to `send` or `sendfile` it reports when there is room again.
-/

namespace WebServer

open Bytes HttpServer OutSegment Execution

/-! ## The kernel -/

/-- A connected socket and its entry in epoll. `sent` is all the peer has sent; `blocked` says that a call
would have blocked and no room has been made since. -/
structure Socket where
  sent : Bytes
  unread : Bytes
  ended : Bool
  blocked : Bool
  interest : EpollEvents
  pending : Bool
  deriving DecidableEq

/-- What the network does to a socket. -/
inductive SocketMove where
  | arrive (data : Bytes)
  | finish
  | room

namespace Socket

def new : Socket where
  sent := []
  unread := []
  ended := false
  blocked := false
  interest := EventLoop.acceptEvents
  pending := false

variable (socket : Socket)

def move : SocketMove → Socket
  | .arrive data =>
    if socket.ended ∨ data = [] then socket
    else
      { socket with
        sent := socket.sent ++ data
        unread := socket.unread ++ data
        pending := socket.pending || socket.interest.epollin }
  | .finish =>
    { socket with
      ended := true
      pending := socket.pending || socket.interest.epollin || socket.interest.epollrdhup }
  | .room => { socket with blocked := false, pending := socket.pending || socket.interest.epollout }

/-- The events of the mask the socket is ready for. -/
def report : EpollEvents where
  epollin := socket.interest.epollin && (socket.unread ≠ [] || socket.ended)
  epollout := socket.interest.epollout && !socket.blocked
  epollrdhup := socket.interest.epollrdhup && socket.ended
  epollerr := false
  epollhup := false
  epollet := false

/-- `EPOLL_CTL_MOD` looks at the socket again. -/
def modify (events : EpollEvents) : Socket :=
  let socket := { socket with interest := events }
  { socket with
    pending := socket.pending || socket.report.epollin || socket.report.epollout ||
      socket.report.epollrdhup }

def block (result : SysResult) : Socket :=
  if result.wouldBlock then { socket with blocked := true } else socket

/-- The socket after a call with this result, if the kernel can give it. -/
def answer : Action → Option Socket
  | .recv (.received data) =>
    if data = [] then if socket.unread = [] ∧ socket.ended then some socket else none
    else if data <+: socket.unread then
      some { socket with unread := socket.unread.drop data.length }
    else none
  | .recv (.failed errno) =>
    if errno = eagain ∧ (socket.unread ≠ [] ∨ socket.ended) then none else some socket
  | .send result _ | .sendfile result _ _ => some (socket.block result)
  | .updateEvents events => some (socket.modify events)
  | _ => some socket

/-- The kernel answers these calls, and the network moves in between. -/
inductive Meets : Socket → List Action → Socket → Prop where
  | refl (socket : Socket) : Meets socket [] socket
  | move {socket socket' : Socket} {calls : List Action} (move : SocketMove)
      (h : Meets (socket.move move) calls socket') : Meets socket calls socket'
  | call {socket next socket' : Socket} {action : Action} {calls : List Action}
      (hanswer : socket.answer action = some next) (h : Meets next calls socket') :
      Meets socket (action :: calls) socket'

variable {socket socket' : Socket} {action : Action} {calls first second : List Action}

theorem Meets.split (h : Meets socket (first ++ second) socket') :
    ∃ mid, Meets socket first mid ∧ Meets mid second socket' := by
  generalize hcalls : first ++ second = calls at h
  induction h generalizing first with
  | refl socket =>
    obtain ⟨rfl, rfl⟩ := List.append_eq_nil_iff.mp hcalls
    exact ⟨socket, .refl socket, .refl socket⟩
  | move move h ih =>
    obtain ⟨mid, hfirst, hsecond⟩ := ih hcalls
    exact ⟨mid, .move move hfirst, hsecond⟩
  | @call socket next socket' action calls hanswer h ih =>
    cases first with
    | nil =>
      subst hcalls
      exact ⟨socket, .refl socket, .call hanswer h⟩
    | cons head first =>
      obtain ⟨rfl, htail⟩ := List.cons.inj hcalls
      obtain ⟨mid, hfirst, hsecond⟩ := ih htail
      exact ⟨mid, .call hanswer hfirst, hsecond⟩

/-- A property of the socket that the network and the calls keep. -/
theorem Meets.keeps (h : Meets socket calls socket') {property : Socket → Prop}
    (hmove : ∀ socket move, property socket → property (socket.move move))
    (hcall : ∀ socket next, ∀ action ∈ calls, property socket → socket.answer action = some next →
      property next) (hstart : property socket) : property socket' := by
  induction h with
  | refl => exact hstart
  | move move _ ih => exact ih hcall (hmove _ move hstart)
  | call hanswer _ ih =>
    apply ih
    · intro socket next action hmem
      exact hcall socket next action (List.mem_cons_of_mem _ hmem)
    · exact hcall _ _ _ List.mem_cons_self hstart hanswer

theorem Meets.head (h : Meets socket (action :: calls) socket') :
    ∃ before next, Meets socket [] before ∧ before.answer action = some next ∧
      Meets next calls socket' := by
  generalize hcalls : action :: calls = all at h
  induction h with
  | refl => exact absurd hcalls (List.cons_ne_nil _ _)
  | move move _ ih =>
    obtain ⟨before, next, hbefore, hanswer, hlater⟩ := ih hcalls
    exact ⟨before, next, .move move hbefore, hanswer, hlater⟩
  | call hanswer h _ =>
    obtain ⟨rfl, rfl⟩ := List.cons.inj hcalls
    exact ⟨_, _, .refl _, hanswer, h⟩

/-! ## A network that does nothing -/

/-- The calls are answered one behind the other. -/
def answers (calls : List Action) (socket : Socket) : Option Socket := calls.foldlM answer socket

@[simp] theorem answers_nil (socket : Socket) : answers [] socket = some socket := rfl

theorem answers_cons (action : Action) (calls : List Action) (socket : Socket) :
    answers (action :: calls) socket = (socket.answer action).bind (answers calls) := List.foldlM_cons

theorem answers_append (first second : List Action) (socket : Socket) :
    answers (first ++ second) socket = (answers first socket).bind (answers second) :=
  List.foldlM_append

theorem answers_append_some {first second : List Action} (h : answers (first ++ second) socket = some socket') :
    ∃ middle, answers first socket = some middle ∧ answers second middle = some socket' := by
  rw [answers_append] at h
  exact Option.bind_eq_some_iff.mp h

theorem answers_cons_some (h : answers (action :: calls) socket = some socket') :
    ∃ next, socket.answer action = some next ∧ answers calls next = some socket' := by
  rw [answers_cons] at h
  exact Option.bind_eq_some_iff.mp h

theorem answers_singleton (h : answers [action] socket = some socket') :
    socket.answer action = some socket' := by
  obtain ⟨next, hanswer, hnil⟩ := answers_cons_some h
  rw [hanswer]
  exact hnil

theorem Meets.of_answers (h : answers calls socket = some socket') : Meets socket calls socket' := by
  induction calls generalizing socket with
  | nil =>
    obtain rfl := Option.some.inj h
    exact .refl socket
  | cons action calls ih =>
    obtain ⟨next, hanswer, hcalls⟩ := answers_cons_some h
    exact .call hanswer (ih hcalls)

/-! ## What a call changes -/

section Fields

variable (socket)

@[simp] theorem modify_sent (events : EpollEvents) : (socket.modify events).sent = socket.sent := rfl
@[simp] theorem modify_unread (events : EpollEvents) : (socket.modify events).unread = socket.unread := rfl
@[simp] theorem modify_ended (events : EpollEvents) : (socket.modify events).ended = socket.ended := rfl
@[simp] theorem modify_interest (events : EpollEvents) : (socket.modify events).interest = events := rfl

@[simp]
theorem move_interest (move : SocketMove) : (socket.move move).interest = socket.interest := by
  cases move with
  | arrive data =>
    unfold Socket.move
    dsimp only
    split <;> rfl
  | finish => rfl
  | room => rfl

theorem pending_move (move : SocketMove) (h : socket.pending = true) :
    (socket.move move).pending = true := by
  cases move with
  | arrive data =>
    unfold Socket.move
    dsimp only
    split
    · exact h
    · simp [h]
  | finish => simp [Socket.move, h]
  | room => simp [Socket.move, h]

end Fields

/-- Whatever the kernel answers, the bytes it hands over come from the front of the unread ones, and what
is pending stays so. -/
structure Answered (socket : Socket) (action : Action) (next : Socket) : Prop where
  sent : next.sent = socket.sent
  ended : next.ended = socket.ended
  unread : socket.unread = action.receivedBytes ++ next.unread
  pending : socket.pending = true → next.pending = true
  interest : next.interest = socket.interest ∧ Session.KeepsInterest action ∨
    action = .updateEvents next.interest

theorem Answered.of_same {next : Socket} (hsent : next.sent = socket.sent)
    (hended : next.ended = socket.ended) (hunread : socket.unread = action.receivedBytes ++ next.unread)
    (hpending : next.pending = socket.pending) (hinterest : next.interest = socket.interest)
    (haction : Session.KeepsInterest action) : Answered socket action next :=
  ⟨hsent, hended, hunread, fun h ↦ hpending.trans h, .inl ⟨hinterest, haction⟩⟩

theorem answered {next : Socket} (h : socket.answer action = some next) :
    Answered socket action next := by
  unfold answer at h
  split at h
  · rename_i data
    split at h
    · rename_i hdata
      split at h
      · obtain rfl := Option.some.inj h
        exact .of_same rfl rfl (by simp [Action.receivedBytes, hdata]) rfl rfl (by simp [Session.KeepsInterest])
      · exact absurd h (by simp)
    · split at h
      · rename_i hprefix
        obtain rfl := Option.some.inj h
        obtain ⟨rest, hrest⟩ := hprefix
        refine .of_same rfl rfl ?_ rfl rfl (by simp [Session.KeepsInterest])
        simp [Action.receivedBytes, ← hrest]
      · exact absurd h (by simp)
  · split at h
    · exact absurd h (by simp)
    · obtain rfl := Option.some.inj h
      exact .of_same rfl rfl rfl rfl rfl (by simp [Session.KeepsInterest])
  · obtain rfl := Option.some.inj h
    refine .of_same ?_ ?_ ?_ ?_ ?_ (by simp [Session.KeepsInterest]) <;> unfold block <;> split <;> rfl
  · obtain rfl := Option.some.inj h
    refine .of_same ?_ ?_ ?_ ?_ ?_ (by simp [Session.KeepsInterest]) <;> unfold block <;> split <;> rfl
  · rename_i events
    obtain rfl := Option.some.inj h
    exact ⟨rfl, rfl, rfl, fun hpending ↦ by simp [modify, hpending], .inr rfl⟩
  · rename_i hsocket hfailed hsend hsendfile hupdate
    obtain rfl := Option.some.inj h
    have hkeeps : Session.KeepsInterest action := hupdate
    have hreceived : action.receivedBytes = [] := by
      cases action with
      | recv result =>
        cases result with
        | received data => exact absurd rfl (hsocket data)
        | failed errno => rfl
      | _ => rfl
    exact .of_same rfl rfl (by rw [hreceived]; rfl) rfl rfl hkeeps

/-- The bytes received so far and the unread ones are those sent, and epoll has the mask it was given. -/
structure Tracks (socket : Socket) (trace : List Action) : Prop where
  sent : socket.sent = received trace ++ socket.unread
  interest : socket.interest = Session.interestMask trace

theorem Tracks.move {trace : List Action} (h : socket.Tracks trace) (move : SocketMove) :
    (socket.move move).Tracks trace := by
  refine ⟨?_, (move_interest socket move).trans h.interest⟩
  cases move with
  | arrive data =>
    unfold Socket.move
    dsimp only
    split
    · exact h.sent
    · dsimp only
      rw [h.sent, List.append_assoc]
  | finish => exact h.sent
  | room => exact h.sent

theorem Meets.tracks (h : Meets socket calls socket') {trace : List Action} (htracks : socket.Tracks trace) :
    socket'.Tracks (trace ++ calls) := by
  induction h generalizing trace with
  | refl =>
    rw [List.append_nil]
    exact htracks
  | move move _ ih => exact ih (htracks.move move)
  | @call socket next socket' action calls hanswer _ ih =>
    have hnext : next.Tracks (trace ++ [action]) := by
      constructor
      · rw [(answered hanswer).sent, htracks.sent, (answered hanswer).unread, received_append,
          List.append_assoc]
        simp [received]
      · obtain ⟨hsame, hkeeps⟩ | rfl := (answered hanswer).interest
        · rw [hsame, htracks.interest, Session.interestMask_append (by simpa using hkeeps)]
        · rw [Session.interestMask_updateEvents]
    have hlater := ih hnext
    rwa [List.append_assoc] at hlater

/-! ## What is not lost -/

/-- No input is lost: it is reported, or there is none. -/
def InputKnown (socket : Socket) : Prop :=
  socket.interest.epollin = true ∧
    (socket.pending = true ∨ socket.unread = [] ∧ socket.ended = false)

/-- No room is lost: it is reported, or there is none, and it will be reported. -/
def OutputKnown (socket : Socket) : Prop :=
  socket.interest.epollout = true ∧ (socket.pending = true ∨ socket.blocked = true)

theorem InputKnown.move (h : socket.InputKnown) (move : SocketMove) : (socket.move move).InputKnown := by
  obtain ⟨hinterest, hpending | ⟨hunread, hended⟩⟩ := h
  · exact ⟨by rw [move_interest, hinterest], .inl (pending_move socket move hpending)⟩
  · refine ⟨by rw [move_interest, hinterest], ?_⟩
    cases move with
    | arrive data =>
      unfold Socket.move
      dsimp only
      split
      · exact .inr ⟨hunread, hended⟩
      · exact .inl (by simp [hinterest])
    | finish => exact .inl (by simp [Socket.move, hinterest])
    | room => exact .inr ⟨hunread, hended⟩

theorem OutputKnown.move (h : socket.OutputKnown) (move : SocketMove) :
    (socket.move move).OutputKnown := by
  obtain ⟨hinterest, hpending | hblocked⟩ := h
  · exact ⟨by rw [move_interest, hinterest], .inl (pending_move socket move hpending)⟩
  · refine ⟨by rw [move_interest, hinterest], ?_⟩
    cases move with
    | arrive data =>
      unfold Socket.move
      dsimp only
      split
      · exact .inr hblocked
      · exact .inr hblocked
    | finish => exact .inr hblocked
    | room => exact .inl (by simp [Socket.move, hinterest])

/-- A call that does not stop waiting for input. -/
def KeepsInput (action : Action) : Prop := ∀ events, action = .updateEvents events → events.epollin = true

theorem Answered.epollin {next : Socket} (h : Answered socket action next) (haction : KeepsInput action)
    (hinterest : socket.interest.epollin = true) : next.interest.epollin = true := by
  obtain ⟨hsame, -⟩ | hupdate := h.interest
  · rw [hsame]
    exact hinterest
  · exact haction next.interest hupdate

theorem Meets.epollin (h : Meets socket calls socket') (hcalls : ∀ action ∈ calls, KeepsInput action)
    (hinterest : socket.interest.epollin = true) : socket'.interest.epollin = true := by
  have hmove (socket : Socket) (move : SocketMove) (hsocket : socket.interest.epollin = true) :
      (socket.move move).interest.epollin = true := by
    rw [move_interest, hsocket]
  apply h.keeps hmove _ hinterest
  intro socket next action hmem hsocket hanswer
  exact (answered hanswer).epollin (hcalls action hmem) hsocket

theorem InputKnown.answer {next : Socket} (h : socket.InputKnown) (haction : KeepsInput action)
    (hanswer : socket.answer action = some next) : next.InputKnown := by
  have hanswered := answered hanswer
  have hinterest := hanswered.epollin haction h.1
  obtain ⟨-, hpending | ⟨hunread, hended⟩⟩ := h
  · exact ⟨hinterest, .inl (hanswered.pending hpending)⟩
  · rw [hanswered.unread] at hunread
    exact ⟨hinterest, .inr ⟨(List.append_eq_nil_iff.mp hunread).2, hanswered.ended.trans hended⟩⟩

theorem Meets.inputKnown (h : Meets socket calls socket') (hcalls : ∀ action ∈ calls, KeepsInput action)
    (hstart : socket.InputKnown) : socket'.InputKnown := by
  apply h.keeps (fun _ move hknown ↦ hknown.move move) _ hstart
  intro socket next action hmem hknown hanswer
  exact hknown.answer (hcalls action hmem) hanswer

/-- After `EAGAIN` nothing is lost that arrives later. -/
theorem Meets.inputKnown_of_drained (h : Meets socket [.recv (.failed eagain)] socket')
    (hinterest : socket.interest.epollin = true) : socket'.InputKnown := by
  obtain ⟨before, next, hbefore, hanswer, hlater⟩ := h.head
  have hbeforeInterest := hbefore.epollin (by simp) hinterest
  apply hlater.inputKnown (by simp)
  unfold Socket.answer at hanswer
  dsimp only at hanswer
  split at hanswer
  · exact absurd hanswer (by simp)
  · rename_i hdrained
    obtain rfl := Option.some.inj hanswer
    refine ⟨hbeforeInterest, .inr ?_⟩
    simpa using hdrained

end Socket

end WebServer
