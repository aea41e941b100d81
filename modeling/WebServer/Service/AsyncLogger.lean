import WebServer.Http.Bytes

/-!
# The asynchronous logger

Threads put lines into a front buffer under a mutex, and a writer thread exchanges it with an empty back
buffer and writes the lines of the back buffer without the mutex. The writer, every call of `log` and
the call of `stop` that ends the writer take their steps in any order; a step that is not possible, for
instance because the mutex is held, changes nothing. A later call of `stop` finds `_running` unset and
does nothing.

Every line that is put into the front buffer has a number, so that equal lines can be told apart, and
`pushes` records what each of these steps found there. Only statements read them.
-/

namespace WebServer

open Bytes

inductive LogLevel where
  | debug
  | info
  | warning
  | error
  | fatal
  deriving DecidableEq

namespace LogLevel

/-- The value of the enumerator. -/
def toNat : LogLevel → ℕ
  | debug => 0
  | info => 1
  | warning => 2
  | error => 3
  | fatal => 4

def levelName : LogLevel → Bytes
  | debug => lit "DEBUG"
  | info => lit "INFO"
  | warning => lit "WARNING"
  | error => lit "ERROR"
  | fatal => lit "FATAL"

end LogLevel

/-- The arguments of a call of `log`, and the text of the time at which the line is made. -/
structure LogCall where
  level : LogLevel
  message : Bytes
  file : Bytes
  line : ℕ
  time : Bytes
  deriving DecidableEq

/-- The line that a call of `log` makes. -/
def LogCall.logMsg (call : LogCall) : Bytes :=
  lit "[" ++ call.level.levelName ++ lit "][" ++ call.time ++ lit "][" ++ call.message ++ lit "][" ++
    call.file ++ lit ":" ++ decimal call.line ++ lit "]"

/-- A line with its number. -/
structure LogEntry where
  number : ℕ
  text : Bytes
  deriving DecidableEq

/-- A line that was put into the front buffer, and what was there before. -/
structure LogPush where
  entry : LogEntry
  found : List LogEntry
  deriving DecidableEq

/-- Where the writer thread is. It holds the mutex at the condition of its loop, at the condition of
`wait_for`, behind the wait and before the exchange of the buffers. -/
inductive WriterPosition where
  | locking
  | testing
  | predicate
  | sleeping
  | awake
  | swapping
  | writing
  | done
  deriving DecidableEq

/-- Where the call of `stop` is that found `_running` set. -/
inductive StopPosition where
  | idle
  | joining
  | draining
  | returned
  deriving DecidableEq

structure AsyncLogger where
  level : LogLevel
  running : Bool
  frontBuffer : List LogEntry
  backBuffer : List LogEntry
  maxQueueSize : ℕ
  fileOpen : Bool
  file : List LogEntry
  writer : WriterPosition
  stopper : StopPosition
  /-- The lines of the calls of `log` that have found `_running` set and not locked the mutex yet. -/
  calls : List Bytes
  pushes : List LogPush

/-- A step of one of the threads; `timedOut` says why `wait_for` ends a sleep. -/
inductive LoggerInput where
  | log (call : LogCall)
  | push (index : ℕ)
  | writer (timedOut : Bool)
  | stop
  | setLevel (level : LogLevel)

namespace AsyncLogger

/-- The logger behind `init` with a file that could be opened. -/
def init (level : LogLevel) (maxQueueSize : ℕ) : AsyncLogger where
  level := level
  running := true
  frontBuffer := []
  backBuffer := []
  maxQueueSize := maxQueueSize
  fileOpen := true
  file := []
  writer := .locking
  stopper := .idle
  calls := []
  pushes := []

variable (logger : AsyncLogger)

/-- The writer holds the mutex. -/
def writerLocks : Bool :=
  match logger.writer with
  | .testing | .predicate | .awake | .swapping => true
  | .locking | .sleeping | .writing | .done => false

/-- The call of `stop` holds the mutex. -/
def stopLocks : Bool := logger.stopper = .draining

/-- `writeToFile`. -/
def writeToFile (entry : LogEntry) : AsyncLogger :=
  if logger.fileOpen then { logger with file := logger.file ++ [entry] } else logger

/-- The part of `log` before the mutex. -/
def log (call : LogCall) : AsyncLogger :=
  if call.level.toNat < logger.level.toNat then logger
  else if ¬ logger.running then logger
  else { logger with calls := logger.calls ++ [call.logMsg] }

/-- The part of `log` under the mutex: a full front buffer loses its oldest line. -/
def pushFront (text : Bytes) : AsyncLogger :=
  let entry : LogEntry := ⟨logger.pushes.length, text⟩
  let front :=
    if logger.maxQueueSize ≤ logger.frontBuffer.length then logger.frontBuffer.tail
    else logger.frontBuffer
  { logger with
    frontBuffer := front ++ [entry]
    pushes := logger.pushes ++ [⟨entry, logger.frontBuffer⟩] }

def push (index : ℕ) : AsyncLogger :=
  if logger.writerLocks ∨ logger.stopLocks then logger
  else
    match logger.calls[index]? with
    | some text => { logger.pushFront text with calls := logger.calls.eraseIdx index }
    | none => logger

/-- A step of `writeThreadFunc`. -/
def writerStep (timedOut : Bool) : AsyncLogger :=
  match logger.writer with
  | .locking => if logger.stopLocks then logger else { logger with writer := .testing }
  | .testing => { logger with writer := if logger.running then .predicate else .done }
  | .predicate =>
    { logger with
      writer := if ¬ logger.running ∨ logger.frontBuffer ≠ [] then .awake else .sleeping }
  | .sleeping =>
    if logger.stopLocks then logger
    else { logger with writer := if timedOut then .awake else .predicate }
  | .awake =>
    { logger with
      writer := if ¬ logger.running ∧ logger.frontBuffer = [] then .done else .swapping }
  | .swapping =>
    { logger with
      frontBuffer := logger.backBuffer
      backBuffer := logger.frontBuffer
      writer := .writing }
  | .writing =>
    match logger.backBuffer with
    | entry :: rest => { logger.writeToFile entry with backBuffer := rest }
    | [] => { logger with writer := .locking }
  | .done => logger

/-- A step of `stop`. -/
def stopStep : AsyncLogger :=
  match logger.stopper with
  | .idle => if logger.running then { logger with running := false, stopper := .joining } else logger
  | .joining => if logger.writer = .done then { logger with stopper := .draining } else logger
  | .draining =>
    match logger.frontBuffer, logger.backBuffer with
    | entry :: rest, _ => { logger.writeToFile entry with frontBuffer := rest }
    | [], entry :: rest => { logger.writeToFile entry with backBuffer := rest }
    | [], [] => { logger with fileOpen := false, stopper := .returned }
  | .returned => logger

def step (logger : AsyncLogger) : LoggerInput → AsyncLogger
  | .log call => logger.log call
  | .push index => logger.push index
  | .writer timedOut => logger.writerStep timedOut
  | .stop => logger.stopStep
  | .setLevel level => { logger with level := level }

end AsyncLogger

end WebServer
