import WebServer.Foundation.Framing
import WebServer.Http.HeaderBlock

/-!
# Reading responses back

A client reads a response up to the first blank line, looks for the one `Content-Length` line in the
header, and takes as many bytes after the blank line as it says. `responseFramer` is this client; the
messages of a stream of responses are what it reads. A header block with one `Content-Length` line,
followed by as many bytes, is read as one message whatever the bytes are.
-/

namespace WebServer

open Bytes Search HeaderBlock

/-- What a client takes from a response. -/
structure Message where
  statusCode : ℕ
  body : Bytes
  deriving DecidableEq

namespace Message

/-! ## The decoder -/

/-- Take the next line off a text, or stop. -/
def readLineTurn (state : List Bytes × Bytes) : Turn (List Bytes × Bytes) (List Bytes) :=
  match find crlf state.2 with
  | none => .exit state.1
  | some i => .next (state.1 ++ [state.2.take i], state.2.drop (i + 2))

theorem length_lt_of_readLineTurn (state state' : List Bytes × Bytes)
    (h : readLineTurn state = .next state') : state'.2.length < state.2.length := by
  unfold readLineTurn at h
  split at h
  · exact absurd h (by simp)
  · rename_i i hfind
    obtain rfl := Turn.next.inj h
    have hle := find_le hfind
    have htwo : crlf.length = 2 := rfl
    rw [List.length_drop]
    omega

/-- Cut a text into its lines; bytes behind the last line end are dropped. -/
def readLinesLoop : WhileLoop (List Bytes × Bytes) (List Bytes) where
  body := readLineTurn
  measure state := state.2.length
  decreases := length_lt_of_readLineTurn

def readLines (text : Bytes) : List Bytes := readLinesLoop.run ([], text)

/-- The number behind "HTTP/1.1 " in a status line. -/
def readStatus (line : Bytes) : Option ℕ :=
  if (lit "HTTP/1.1 ").isPrefixOf line then
    some (decimalValue ((line.drop (lit "HTTP/1.1 ").length).takeWhile isDigit))
  else none

def isContentLength (line : Bytes) : Bool := (lit "Content-Length: ").isPrefixOf line

/-- The status code and the body length of a header with exactly one `Content-Length` line. -/
def readHead (lines : List Bytes) : Option (ℕ × ℕ) :=
  match lines with
  | [] => none
  | startLine :: fieldLines =>
    match readStatus startLine, fieldLines.filter isContentLength with
    | some statusCode, [line] =>
      some (statusCode, decimalValue (line.drop (lit "Content-Length: ").length))
    | _, _ => none

/-- Read the first response of a text. -/
def decode (text : Bytes) : Verdict Message Unit :=
  match find blankLine text with
  | none => .needMore
  | some headerEnd =>
    match readHead (readLines (text.take (headerEnd + 2))) with
    | none => .error ()
    | some (statusCode, length) =>
      if text.length < headerEnd + 4 + length then .needMore
      else .ok ⟨statusCode, substr text (headerEnd + 4) length⟩ (headerEnd + 4 + length)

theorem decode_ok_iff {text : Bytes} {message : Message} {consumed : ℕ} :
    decode text = .ok message consumed ↔
      ∃ headerEnd length, find blankLine text = some headerEnd ∧
        readHead (readLines (text.take (headerEnd + 2))) = some (message.statusCode, length) ∧
        consumed = headerEnd + 4 + length ∧ consumed ≤ text.length ∧
        message.body = substr text (headerEnd + 4) length := by
  unfold decode
  constructor
  · intro h
    split at h
    · exact absurd h (by simp)
    · rename_i headerEnd hend
      split at h
      · exact absurd h (by simp)
      · rename_i statusCode length hhead
        split at h
        · exact absurd h (by simp)
        · obtain ⟨rfl, rfl⟩ := Verdict.ok.inj h
          exact ⟨headerEnd, length, hend, hhead, rfl, by omega, rfl⟩
  · rintro ⟨headerEnd, length, hend, hhead, rfl, hle, hbody⟩
    simp only [hend, hhead]
    rw [if_neg (by omega), ← hbody]

end Message

/-- The responses of a stream. -/
def responseFramer : Framer Byte Message Unit where
  parse := Message.decode
  final _ := false
  consumed_pos h := by
    obtain ⟨headerEnd, length, -, -, rfl, -⟩ := Message.decode_ok_iff.mp h
    omega
  consumed_le h := by
    obtain ⟨headerEnd, length, -, -, -, hle, -⟩ := Message.decode_ok_iff.mp h
    exact hle
  ok_append {text message consumed} h suffix := by
    obtain ⟨headerEnd, length, hend, hhead, rfl, hle, hbody⟩ := Message.decode_ok_iff.mp h
    refine Message.decode_ok_iff.mpr
      ⟨headerEnd, length, find_append_of_some hend suffix, ?_, rfl, ?_, ?_⟩
    · rwa [List.take_append_of_le_length (by omega)]
    · rw [List.length_append]
      omega
    · rw [hbody, substr, substr, List.drop_append_of_le_length (by omega),
        List.take_append_of_le_length (by rw [List.length_drop]; omega)]

namespace Message

/-! ## Reading what was written -/

theorem readLines_writeLines {lines : List Bytes} (h : ∀ line ∈ lines, find crlf line = none) :
    readLines (writeLines lines) = lines := by
  suffices hall : ∀ before, readLinesLoop.run (before, writeLines lines) = before ++ lines from
    hall []
  induction lines with
  | nil =>
    intro before
    rw [List.append_nil]
    exact readLinesLoop.run_of_exit rfl
  | cons line lines ih =>
    intro before
    have hfind : find crlf (writeLines (line :: lines)) = some line.length := by
      rw [writeLines_cons]
      exact find_crlf_line (h line List.mem_cons_self) _
    have hdrop : (writeLines (line :: lines)).drop (line.length + 2) = writeLines lines := by
      rw [writeLines_cons, ← List.drop_drop, List.drop_left]
      rfl
    have htake : (writeLines (line :: lines)).take line.length = line := by
      rw [writeLines_cons, List.take_left]
    have hbody : readLinesLoop.body (before, writeLines (line :: lines)) =
        .next (before ++ [line], writeLines lines) := by
      simp only [readLinesLoop, readLineTurn, hfind, hdrop, htake]
    rw [readLinesLoop.run_of_next hbody,
      ih (fun line hmem ↦ h line (List.mem_cons_of_mem _ hmem)), List.append_assoc]
    rfl

/-- A status line is read back when its reason phrase is set off by a blank. -/
theorem readStatus_statusLine (statusCode : ℕ) (reason : Bytes) :
    readStatus (lit "HTTP/1.1 " ++ (decimal statusCode ++ (lit " " ++ reason))) =
      some statusCode := by
  have hpre : (lit "HTTP/1.1 ").isPrefixOf
      (lit "HTTP/1.1 " ++ (decimal statusCode ++ (lit " " ++ reason))) = true :=
    List.isPrefixOf_iff_prefix.mpr (List.prefix_append ..)
  have htake : (decimal statusCode ++ (lit " " ++ reason)).takeWhile isDigit =
      decimal statusCode := by
    rw [List.takeWhile_append_of_pos fun c hc ↦ isDigit_of_mem_decimal hc]
    have hstop : (lit " " ++ reason).takeWhile isDigit = [] := rfl
    rw [hstop, List.append_nil]
  rw [readStatus, if_pos hpre, List.drop_left, htake, decimalValue_decimal]

/-- The header block announces the message: its status line carries the status code, and its only
`Content-Length` line the number of body bytes. -/
structure Announces (block : HeaderBlock) (message : Message) : Prop where
  status : readStatus block.startLine = some message.statusCode
  contentLength : block.fieldLines.filter isContentLength =
    [lit "Content-Length: " ++ decimal message.body.length]

/-- A header block and the body it announces are read as that message. -/
theorem Announces.decode {block : HeaderBlock} {message : Message} (h : Announces block message) :
    decode (block.toBytes ++ message.body) =
      .ok message (block.toBytes ++ message.body).length := by
  have hfour := block.four_le_length_toBytes
  have hlines : readLines ((block.toBytes ++ message.body).take (block.toBytes.length - 4 + 2)) =
      block.startLine :: block.fieldLines := by
    have htake : (block.toBytes ++ message.body).take (block.toBytes.length - 4 + 2) =
        writeLines (block.startLine :: block.fieldLines) := by
      have hlen := block.length_toBytes
      rw [List.take_append_of_le_length (by omega), toBytes,
        List.take_append_of_le_length (by rw [← toBytes]; omega), List.take_of_length_le]
      rw [← toBytes]
      omega
    rw [htake]
    exact readLines_writeLines (List.forall_mem_cons.mpr
      ⟨find_crlf_eq_none block.cr_notMem_startLine,
        fun line hmem ↦ find_crlf_eq_none (block.cr_notMem_fieldLines line hmem)⟩)
  refine decode_ok_iff.mpr
    ⟨block.toBytes.length - 4, message.body.length, block.find_blankLine _, ?_, ?_, le_rfl, ?_⟩
  · rw [hlines, readHead, h.status, h.contentLength]
    simp only [List.drop_left, decimalValue_decimal]
  · rw [List.length_append]
    omega
  · rw [Nat.sub_add_cancel hfour, substr, List.drop_left, List.take_length]

end Message

end WebServer
