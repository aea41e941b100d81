import WebServer.Foundation.Splitting
import WebServer.Http.HeaderLines

/-!
# The turns of the header loop

The header loop has two breaks besides its condition: for a line end behind the blank line, and for an
empty line. Both would leave header lines unread. In front of the first blank line there is no empty
line, and the blank line itself bounds every search for a line end, so neither break is ever taken, and
the loop passes on the pieces of the text between the request line and the blank line.
-/

namespace WebServer

open Bytes Search HeaderBlock

namespace HttpRequest

/-- The pieces between the end of the request line and the blank line, cut at every line end. The end of
the request line can be the first half of the blank line; then there is nothing between them. -/
def piecesBetween (raw : Bytes) (lineEnd headerEnd : ℕ) : List Bytes :=
  if lineEnd + 2 ≤ headerEnd then
    split crlf (substr raw (lineEnd + 2) (headerEnd - (lineEnd + 2)))
  else []

/-- The turns of the header loop in a call of `parse`; there are none if the call ends before it. -/
def headerTurns (raw : Bytes) : List (ℕ × StringMap) :=
  match find blankLine raw, find crlf raw with
  | some headerEnd, some lineEnd =>
    if maxRequestLine < lineEnd then []
    else
      match parseRequestLine (substr raw 0 lineEnd) clear with
      | none => []
      | some request => (headerLoop raw headerEnd).visited (lineEnd + 2, request.headers)
  | _, _ => []

/-- The line that a turn passes to `parseHeaderLine`. -/
def HeaderBranch.passed : HeaderBranch → Option Bytes
  | .line text => some text
  | .finished | .pastHeaderEnd | .emptyLine => none

/-- The lines that some turns pass to `parseHeaderLine`, in order. -/
def passedLines (raw : Bytes) (headerEnd : ℕ) (turns : List (ℕ × StringMap)) : List Bytes :=
  turns.filterMap fun turn ↦ (headerBranch raw headerEnd turn.1).passed

/-- Some turns take no break and pass on the given lines, from the first to the last one or to one that
is rejected. -/
structure PassesLines (raw : Bytes) (headerEnd : ℕ) (turns : List (ℕ × StringMap))
    (lines : List Bytes) : Prop where
  no_break : ∀ turn ∈ turns, headerBranch raw headerEnd turn.1 ≠ .pastHeaderEnd ∧
    headerBranch raw headerEnd turn.1 ≠ .emptyLine
  in_order : passedLines raw headerEnd turns <+: lines
  stops : passedLines raw headerEnd turns = lines ∨
    ∃ front line, passedLines raw headerEnd turns = front ++ [line] ∧
      ∀ headers, parseHeaderLine line headers = none

variable {raw : Bytes} {headerEnd : ℕ} {turns : List (ℕ × StringMap)} {lines : List Bytes}

theorem PassesLines.of_finished {turn : ℕ × StringMap}
    (h : headerBranch raw headerEnd turn.1 = .finished) : PassesLines raw headerEnd [turn] [] := by
  have hpassed : passedLines raw headerEnd [turn] = [] := by
    simp [passedLines, h, HeaderBranch.passed]
  refine ⟨?_, ?_, .inl hpassed⟩
  · simp [h]
  · rw [hpassed]

theorem passedLines_cons {turn : ℕ × StringMap} {line : Bytes}
    (h : headerBranch raw headerEnd turn.1 = .line line) :
    passedLines raw headerEnd (turn :: turns) = line :: passedLines raw headerEnd turns := by
  simp [passedLines, h, HeaderBranch.passed]

/-- A rejected line is the last one. -/
theorem PassesLines.of_rejected {turn : ℕ × StringMap} {line : Bytes}
    (h : headerBranch raw headerEnd turn.1 = .line line)
    (hrejected : parseHeaderLine line turn.2 = none) (lines : List Bytes) :
    PassesLines raw headerEnd [turn] (line :: lines) := by
  have hpassed : passedLines raw headerEnd [turn] = [line] := passedLines_cons h
  refine ⟨?_, ?_, .inr ⟨[], line, hpassed, fun headers ↦ ?_⟩⟩
  · simp [h]
  · rw [hpassed]
    exact List.prefix_append [line] lines
  · rw [parseHeaderLine_eq, Option.map_eq_none_iff] at hrejected ⊢
    exact hrejected

/-- Behind an accepted line the loop goes on with the others. -/
theorem PassesLines.cons (h : PassesLines raw headerEnd turns lines) {turn : ℕ × StringMap}
    {line : Bytes} (hline : headerBranch raw headerEnd turn.1 = .line line) :
    PassesLines raw headerEnd (turn :: turns) (line :: lines) := by
  have hpassed : passedLines raw headerEnd (turn :: turns) =
      line :: passedLines raw headerEnd turns := passedLines_cons hline
  refine ⟨List.forall_mem_cons.mpr ⟨by simp [hline], h.no_break⟩, ?_, ?_⟩
  · rw [hpassed]
    exact List.cons_prefix_cons.mpr ⟨rfl, h.in_order⟩
  · rw [hpassed]
    obtain hall | ⟨front, last, hfront, hrejected⟩ := h.stops
    · exact .inl (congrArg (line :: ·) hall)
    · exact .inr ⟨line :: front, last, congrArg (line :: ·) hfront, hrejected⟩

/-- From the beginning of a line on, the loop passes on the lines in front of the blank line. -/
theorem passesLines_writeLines (lines : List Bytes) (headers : StringMap) (left text : Bytes)
    (headerEnd : ℕ) (hne : ∀ line ∈ lines, line ≠ []) (hlines : ∀ line ∈ lines, find crlf line = none)
    (hend : headerEnd + 2 = (left ++ writeLines lines).length) :
    PassesLines (left ++ writeLines lines ++ text) headerEnd
      ((headerLoop (left ++ writeLines lines ++ text) headerEnd).visited (left.length, headers))
      lines := by
  induction lines generalizing left headers with
  | nil =>
    rw [writeLines_nil, List.append_nil] at hend
    have hfinished : headerBranch (left ++ writeLines [] ++ text) headerEnd left.length = .finished :=
      headerBranch_finished (by omega)
    have hbody := headerLoop_body (left ++ writeLines [] ++ text) headerEnd (left.length, headers)
    rw [hfinished] at hbody
    rw [WhileLoop.visited_of_exit _ hbody]
    exact .of_finished hfinished
  | cons line lines ih =>
    obtain ⟨hline, hrest⟩ := List.forall_mem_cons.mp hlines
    obtain ⟨hneLine, hneRest⟩ := List.forall_mem_cons.mp hne
    have htext : left ++ writeLines (line :: lines) ++ text =
        left ++ (line ++ (crlf ++ (writeLines lines ++ text))) := by
      simp [List.append_assoc]
    have hlen : headerEnd + 2 = left.length + (line.length + 2 + (writeLines lines).length) := by
      rw [hend, writeLines_cons]
      simp only [List.length_append, crlf, List.length_cons, List.length_nil]
      omega
    have hbranch : headerBranch (left ++ (line ++ (crlf ++ (writeLines lines ++ text)))) headerEnd
        left.length = .line line := headerBranch_line hneLine hline (by omega)
    have hbody := headerLoop_body (left ++ (line ++ (crlf ++ (writeLines lines ++ text)))) headerEnd
      (left.length, headers)
    rw [hbranch] at hbody
    rw [htext]
    cases hparse : parseHeaderLine line headers with
    | none =>
      simp only [hparse] at hbody
      rw [WhileLoop.visited_of_exit _ hbody]
      exact .of_rejected hbranch hparse lines
    | some headers' =>
      simp only [hparse] at hbody
      have hleft : (left ++ (line ++ crlf)).length = left.length + line.length + 2 := by
        simp only [List.length_append, crlf, List.length_cons, List.length_nil]
        omega
      have hnext := ih headers' (left ++ (line ++ crlf)) hneRest hrest
        (by rw [List.length_append, hleft]; omega)
      have hassoc : left ++ (line ++ crlf) ++ writeLines lines ++ text =
          left ++ (line ++ (crlf ++ (writeLines lines ++ text))) := by
        simp [List.append_assoc]
      rw [hassoc, hleft] at hnext
      rw [WhileLoop.visited_of_next _ hbody]
      exact hnext.cons hbranch

/-- Lines written one behind the other, without the last line end, are cut at the others. -/
theorem split_writeLines (line : Bytes) (lines : List Bytes)
    (hlines : ∀ l ∈ line :: lines, find crlf l = none) :
    split crlf ((writeLines (line :: lines)).take ((writeLines (line :: lines)).length - 2)) =
      line :: lines := by
  have hcrlf : crlf ≠ [] := by decide
  have htwo : crlf.length = 2 := rfl
  induction lines generalizing line with
  | nil =>
    have hline := hlines line List.mem_cons_self
    have hlength : (writeLines [line]).length - 2 = line.length := by
      rw [writeLines_cons, writeLines_nil, List.append_nil, List.length_append, htwo,
        Nat.add_sub_cancel]
    rw [hlength, writeLines_cons, List.take_left, split_of_find_eq_none hline]
  | cons next lines ih =>
    obtain ⟨hline, hrest⟩ := List.forall_mem_cons.mp hlines
    have hlength : (writeLines (line :: next :: lines)).length - 2 =
        line.length + (crlf.length + ((writeLines (next :: lines)).length - 2)) := by
      have hnext : 2 ≤ (writeLines (next :: lines)).length := by
        rw [writeLines_cons, List.length_append, List.length_append, htwo]
        omega
      rw [writeLines_cons line, List.length_append, List.length_append]
      omega
    have htake : (writeLines (line :: next :: lines)).take
        ((writeLines (line :: next :: lines)).length - 2) =
        line ++ (crlf ++ (writeLines (next :: lines)).take
          ((writeLines (next :: lines)).length - 2)) := by
      rw [hlength, writeLines_cons line, List.take_length_add_append, List.take_length_add_append]
    rw [htake, split_append hcrlf (find_crlf_line hline _), ih next hrest]

theorem piecesBetween_toBytes (head : RequestHead) (rest : Bytes) :
    piecesBetween (head.toBytes ++ rest) head.startLine.length (head.toBytes.length - 4) =
      head.fieldLines := by
  have hlen := head.length_toBytes
  have htext := head.toBytes_append rest
  unfold piecesBetween
  cases hlines : head.fieldLines with
  | nil =>
    rw [hlines, writeLines_nil, List.length_nil] at hlen
    exact if_neg (by omega)
  | cons line lines =>
    rw [hlines] at hlen htext
    have hfields : ∀ l ∈ line :: lines, find crlf l = none := hlines ▸ head.find_fieldLines
    have hfour : 4 ≤ (writeLines (line :: lines)).length + 2 := by
      rw [writeLines_cons]
      simp only [List.length_append, crlf, List.length_cons, List.length_nil]
      omega
    have hcount : head.toBytes.length - 4 - (head.startLine.length + 2) =
        (writeLines (line :: lines)).length - 2 := by omega
    have hdrop : (head.toBytes ++ rest).drop (head.startLine.length + 2) =
        writeLines (line :: lines) ++ (crlf ++ rest) := by
      rw [htext, ← List.drop_drop, List.drop_left]
      rfl
    rw [if_pos (by omega), substr, hdrop, hcount, List.take_append_of_le_length (by omega),
      split_writeLines line lines hfields]

/-- In every buffer with a blank line and an accepted request line, the header loop passes on exactly
the pieces between the request line and the blank line, in order and each once, until one of them is
rejected, and neither of its breaks is taken. -/
theorem headerTurns_pass_pieces {lineEnd : ℕ} {request : HttpRequest}
    (hend : find blankLine raw = some headerEnd) (hline : find crlf raw = some lineEnd)
    (hmax : lineEnd ≤ maxRequestLine)
    (hrequest : parseRequestLine (substr raw 0 lineEnd) clear = some request) :
    PassesLines raw headerEnd (headerTurns raw) (piecesBetween raw lineEnd headerEnd) := by
  have hturns : headerTurns raw =
      (headerLoop raw headerEnd).visited (lineEnd + 2, request.headers) := by
    simp only [headerTurns, hend, hline, hrequest]
    rw [if_neg (Nat.not_lt_of_le hmax)]
  obtain ⟨head, rest, rfl⟩ := RequestHead.exists_of_blankLine hend
  obtain rfl := Option.some.inj ((head.find_blankLine rest).symm.trans hend)
  obtain rfl := Option.some.inj ((head.find_crlf rest).symm.trans hline)
  have hlen := head.length_toBytes
  have htext : head.startLine ++ crlf ++ writeLines head.fieldLines ++ (crlf ++ rest) =
      head.toBytes ++ rest := by
    simp [RequestHead.toBytes_append, List.append_assoc]
  have hstart : (head.startLine ++ crlf).length = head.startLine.length + 2 := by
    simp [crlf]
  have hpasses := passesLines_writeLines head.fieldLines request.headers (head.startLine ++ crlf)
    (crlf ++ rest) (head.toBytes.length - 4) head.fieldLines_ne_nil head.find_fieldLines (by
      rw [List.length_append, hstart]
      omega)
  rw [htext, hstart] at hpasses
  rw [hturns, piecesBetween_toBytes]
  exact hpasses

/-- A request with a CR at the end of a header value and an LF in another one. -/
def strayLineBytes : Bytes := lit "GET / HTTP/1.1\r\nA: b\r\r\nB:\n1\r\n\r\n"

theorem headerTurns_pass_pieces_strayLineBytes :
    PassesLines strayLineBytes 27 (headerTurns strayLineBytes) [lit "A: b\r", lit "B:\n1"] := by
  have hend : find blankLine strayLineBytes = some 27 := by decide
  have hline : find crlf strayLineBytes = some 14 := by decide
  have hrequest : parseRequestLine (substr strayLineBytes 0 14) clear =
      some { clear with method := lit "GET", path := lit "/", version := lit "HTTP/1.1" } := rfl
  exact headerTurns_pass_pieces hend hline (by decide) hrequest

end HttpRequest

end WebServer
