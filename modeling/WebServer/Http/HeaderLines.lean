import WebServer.Http.RequestStability
import WebServer.Http.ResponseDecoder

/-!
# The header lines of a request

A buffer with a blank line is a request head and the bytes behind it: the request line and the header
lines, none of which contains a line end, and the empty line. The header loop of the parser reads each
header line once, so the answer of `parse` is a function of the request line, the header fields and the
bytes behind the head.
-/

namespace WebServer

open Bytes Search HeaderBlock

/-- The lines in front of the first blank line of a buffer. -/
structure RequestHead where
  startLine : Bytes
  fieldLines : List Bytes
  find_startLine : find crlf startLine = none
  find_fieldLines : ∀ line ∈ fieldLines, find crlf line = none
  fieldLines_ne_nil : ∀ line ∈ fieldLines, line ≠ []

namespace RequestHead

variable (head : RequestHead) (rest : Bytes)

def toBytes : Bytes := writeLines (head.startLine :: head.fieldLines) ++ crlf

theorem find_lines : ∀ line ∈ head.startLine :: head.fieldLines, find crlf line = none :=
  List.forall_mem_cons.mpr ⟨head.find_startLine, head.find_fieldLines⟩

theorem length_toBytes :
    head.toBytes.length = head.startLine.length + 2 + (writeLines head.fieldLines).length + 2 := by
  simp only [toBytes, writeLines_cons, crlf, List.length_append, List.length_cons, List.length_nil]
  omega

theorem find_blankLine :
    find blankLine (head.toBytes ++ rest) = some (head.toBytes.length - 4) := by
  have hfind := find_blankLine_writeLines head.fieldLines_ne_nil head.find_lines rest
  rw [toBytes, hfind, List.length_append]
  rfl

theorem toBytes_append : head.toBytes ++ rest =
    head.startLine ++ (crlf ++ (writeLines head.fieldLines ++ (crlf ++ rest))) := by
  simp [toBytes, List.append_assoc]

theorem find_crlf : find crlf (head.toBytes ++ rest) = some head.startLine.length := by
  rw [toBytes_append]
  exact find_crlf_line head.find_startLine _

/-- A found line end leaves a line without one before it. -/
theorem find_take_of_find_crlf {raw : Bytes} {lineEnd : ℕ} (h : find crlf raw = some lineEnd) :
    find crlf (raw.take lineEnd) = none := by
  obtain ⟨hle, -, hfirst⟩ := find_eq_some_iff.mp h
  refine find_eq_none_iff.mpr fun j hj hp ↦ ?_
  have hlen := hp.length_le
  have htwo : crlf.length = 2 := rfl
  rw [List.length_drop, List.length_take_of_le hle] at hlen
  refine hfirst j (by omega) (hp.trans ?_)
  rw [List.drop_take]
  exact List.take_prefix _ _

/-- Everything up to the first blank line is a request head. -/
theorem exists_of_blankLine {raw : Bytes} {headerEnd : ℕ}
    (h : find blankLine raw = some headerEnd) :
    ∃ (head : RequestHead) (rest : Bytes), raw = head.toBytes ++ rest := by
  induction hlen : raw.length using Nat.strong_induction_on generalizing raw headerEnd with
  | _ n ih =>
    obtain ⟨lineEnd, -, hfind⟩ := HttpRequest.exists_crlf_le h (Nat.zero_le headerEnd)
    rw [findFrom_zero] at hfind
    have hline := find_take_of_find_crlf hfind
    have hraw := find_split hfind
    generalize raw.take lineEnd = line at hline hraw
    generalize raw.drop (lineEnd + crlf.length) = text at hraw
    rw [List.append_assoc] at hraw
    subst hraw
    by_cases hcrlf : crlf <+: text
    · obtain ⟨rest, rfl⟩ := hcrlf
      refine ⟨⟨line, [], hline, by simp, by simp⟩, rest, ?_⟩
      simp [toBytes, List.append_assoc]
    · rw [find_blankLine_line hline hcrlf] at h
      obtain ⟨textEnd, hend, -⟩ := Option.map_eq_some_iff.mp h
      have hshort : text.length < n := by
        rw [← hlen, List.length_append, List.length_append]
        simp only [crlf, List.length_cons]
        omega
      obtain ⟨head, rest, rfl⟩ := ih _ hshort hend rfl
      have hne : head.startLine ≠ [] := by
        intro hnil
        refine hcrlf ?_
        rw [toBytes_append, hnil]
        exact List.prefix_append _ _
      refine ⟨⟨line, head.startLine :: head.fieldLines, hline, head.find_lines,
        List.forall_mem_cons.mpr ⟨hne, head.fieldLines_ne_nil⟩⟩, rest, ?_⟩
      simp [toBytes, List.append_assoc]

end RequestHead

/-! ## Maps built by insertion -/

def insertAll (entries : List (Bytes × Bytes)) (map : StringMap) : StringMap :=
  entries.foldl (fun m entry ↦ m.insert entry.1 entry.2) map

/-- The last insertion under a key decides its value. -/
theorem getElem?_insertAll (entries : List (Bytes × Bytes)) (map : StringMap) (key : Bytes) :
    (insertAll entries map)[key]? = (entries.reverse.lookup key).or map[key]? := by
  induction entries generalizing map with
  | nil => simp [insertAll]
  | cons entry entries ih =>
    obtain ⟨name, value⟩ := entry
    have htail : insertAll ((name, value) :: entries) map =
        insertAll entries (map.insert name value) := rfl
    rw [htail, ih, List.reverse_cons, List.lookup_append, Option.or_assoc]
    congr 1
    rw [Std.ExtTreeMap.getElem?_insert]
    by_cases hkey : name = key
    · simp [hkey]
    · have hne : (key == name) = false := beq_false_of_ne (Ne.symm hkey)
      simp [hkey, List.lookup_cons, hne]

/-- With distinct keys a map built by insertion holds exactly its entries. -/
theorem getElem?_insertAll_eq_some_iff {entries : List (Bytes × Bytes)}
    (hnodup : (entries.map Prod.fst).Nodup) {key value : Bytes} :
    (insertAll entries ∅)[key]? = some value ↔ (key, value) ∈ entries := by
  have hlookup : ∀ l : List (Bytes × Bytes), (l.map Prod.fst).Nodup →
      (l.lookup key = some value ↔ (key, value) ∈ l) := by
    intro l
    induction l with
    | nil => simp
    | cons entry l ih =>
      intro hl
      obtain ⟨name, value'⟩ := entry
      obtain ⟨hhead, htail⟩ := List.nodup_cons.mp hl
      by_cases hkey : key = name
      · subst hkey
        have hnot : (key, value) ∉ l := fun hmem ↦
          hhead (List.mem_map.mpr ⟨(key, value), hmem, rfl⟩)
        rw [List.lookup_cons_self, Option.some.injEq, List.mem_cons, or_iff_left hnot]
        exact ⟨fun h ↦ by rw [h], fun h ↦ (Prod.mk.inj h).2.symm⟩
      · have hne : (key == name) = false := beq_false_of_ne hkey
        have hpair : (key, value) ≠ (name, value') := fun h ↦ hkey (Prod.mk.inj h).1
        simp only [List.lookup_cons, hne, List.mem_cons, hpair, false_or]
        exact ih htail
  rw [getElem?_insertAll, Std.ExtTreeMap.getElem?_empty, Option.or_none,
    hlookup _ (by rw [List.map_reverse]; exact (List.reverse_perm _).nodup_iff.mpr hnodup),
    List.mem_reverse]

namespace HttpRequest

/-! ## Header fields -/

/-- The name and the value `parseHeaderLine` finds in a line. -/
def headerField (line : Bytes) : Option (Bytes × Bytes) :=
  match find [colon] line with
  | none => none
  | some i =>
    let key := line.take i
    if key = [] then none else some (key, trim (line.drop (i + 1)))

theorem parseHeaderLine_eq (line : Bytes) (headers : StringMap) :
    parseHeaderLine line headers =
      (headerField line).map fun field ↦ headers.insert field.1 field.2 := by
  unfold parseHeaderLine headerField
  cases find [colon] line with
  | none => rfl
  | some i =>
    dsimp only
    split <;> rfl

theorem foldlM_parseHeaderLine (lines : List Bytes) (headers : StringMap) :
    lines.foldlM (fun headers line ↦ parseHeaderLine line headers) headers =
      (lines.mapM headerField).map fun fields ↦ insertAll fields headers := by
  induction lines generalizing headers with
  | nil => rfl
  | cons line lines ih =>
    rw [List.foldlM_cons, List.mapM_cons, parseHeaderLine_eq]
    cases headerField line with
    | none => rfl
    | some field =>
      have hrest := ih (headers.insert field.1 field.2)
      simp only [Option.map_some, Option.bind_eq_bind, Option.bind_some, hrest]
      cases lines.mapM headerField <;> rfl

/-- The values of the fields with a name, in order. -/
def valuesOf (name : Bytes) (fields : List (Bytes × Bytes)) : List Bytes :=
  (fields.filter fun field ↦ field.1 = name).map Prod.snd

theorem valuesOf_concat (name : Bytes) (fields : List (Bytes × Bytes)) (field : Bytes × Bytes) :
    valuesOf name (fields ++ [field]) =
      valuesOf name fields ++ if field.1 = name then [field.2] else [] := by
  unfold valuesOf
  rw [List.filter_append, List.map_append]
  by_cases hname : field.1 = name
  · simp [hname]
  · simp [hname]

theorem getD_insertAll (name : Bytes) (fields : List (Bytes × Bytes)) :
    (insertAll fields ∅).getD name [] = (valuesOf name fields).getLast?.getD [] := by
  induction fields using List.reverseRecOn with
  | nil => rfl
  | append_singleton fields field ih =>
    have hinsert : insertAll (fields ++ [field]) ∅ = (insertAll fields ∅).insert field.1 field.2 := by
      simp [insertAll]
    rw [hinsert, valuesOf_concat, Std.ExtTreeMap.getD_insert]
    by_cases hname : field.1 = name
    · simp [hname]
    · simp [hname, ih]

/-- A request with the given fields as its header map. -/
def withFields (start : HttpRequest) (fields : List (Bytes × Bytes)) : HttpRequest :=
  { start with headers := insertAll fields ∅ }

section WithFields

variable (start : HttpRequest) (fields : List (Bytes × Bytes)) (name : Bytes)

theorem getHeader_withFields :
    (start.withFields fields).getHeader name = (valuesOf name fields).getLast?.getD [] :=
  getD_insertAll name fields

/-- A header that is not there has an empty value, and the value of one that is stands in a field. -/
theorem getHeader_withFields_cases :
    (start.withFields fields).getHeader name = [] ∨
      ∃ field ∈ fields, field.1 = name ∧ (start.withFields fields).getHeader name = field.2 := by
  rw [getHeader_withFields]
  cases hlast : (valuesOf name fields).getLast? with
  | none => exact .inl rfl
  | some value =>
    obtain ⟨field, hfield, rfl⟩ := List.mem_map.mp (List.mem_of_getLast? hlast)
    obtain ⟨hmem, hname⟩ := List.mem_filter.mp hfield
    exact .inr ⟨field, hmem, of_decide_eq_true hname, rfl⟩

/-- Where all fields with a name have the same value, this is the value of the header. -/
theorem getHeader_withFields_of_forall {value : Bytes}
    (hall : ∀ field ∈ fields, field.1 = name → field.2 = value)
    (hsome : ∃ field ∈ fields, field.1 = name) :
    (start.withFields fields).getHeader name = value := by
  obtain ⟨field, hmem, hname⟩ := hsome
  have hvalue : field.2 ∈ valuesOf name fields :=
    List.mem_map_of_mem (List.mem_filter.mpr ⟨hmem, decide_eq_true hname⟩)
  rw [getHeader_withFields]
  cases hlast : (valuesOf name fields).getLast? with
  | none =>
    rw [List.getLast?_eq_none_iff.mp hlast] at hvalue
    exact absurd hvalue List.not_mem_nil
  | some last =>
    obtain ⟨field', hfield', rfl⟩ := List.mem_map.mp (List.mem_of_getLast? hlast)
    obtain ⟨hmem', hname'⟩ := List.mem_filter.mp hfield'
    exact hall field' hmem' (of_decide_eq_true hname')

end WithFields

/-! ## The header loop -/

/-- The ways a turn of the header loop can go: its condition fails, one of the two breaks is taken, or a
line is passed to `parseHeaderLine`. -/
inductive HeaderBranch where
  | finished
  | pastHeaderEnd
  | emptyLine
  | line (text : Bytes)
  deriving DecidableEq

/-- The way the turn of the header loop at a position goes. -/
def headerBranch (raw : Bytes) (headerEnd pos : ℕ) : HeaderBranch :=
  if pos < headerEnd then
    match findFrom crlf raw pos with
    | none => .pastHeaderEnd
    | some eol =>
      if headerEnd < eol then .pastHeaderEnd
      else if eol = pos then .emptyLine
      else .line (substr raw pos (eol - pos))
  else .finished

/-- A turn of the header loop, by the way it goes. -/
theorem headerLoop_body (raw : Bytes) (headerEnd : ℕ) (state : ℕ × StringMap) :
    (headerLoop raw headerEnd).body state =
      match headerBranch raw headerEnd state.1 with
      | .line text =>
        match parseHeaderLine text state.2 with
        | none => .exit none
        | some headers => .next (state.1 + text.length + 2, headers)
      | .finished | .pastHeaderEnd | .emptyLine => .exit (some state.2) := by
  unfold headerBranch
  simp only [headerLoop]
  by_cases hpos : state.1 < headerEnd
  · rw [if_pos hpos, if_pos hpos]
    cases hfind : findFrom crlf raw state.1 with
    | none => rfl
    | some eol =>
      dsimp only
      by_cases hpast : headerEnd < eol
      · rw [if_pos hpast, if_pos hpast]
      · rw [if_neg hpast, if_neg hpast]
        by_cases hempty : eol = state.1
        · rw [if_pos hempty, if_pos hempty]
        · rw [if_neg hempty, if_neg hempty]
          obtain ⟨hge, hle, -⟩ := findFrom_eq_some_iff.mp hfind
          have hlength : (substr raw state.1 (eol - state.1)).length = eol - state.1 := by
            rw [substr, List.length_take, List.length_drop]
            omega
          have hnext : state.1 + (eol - state.1) = eol := Nat.add_sub_cancel' hge
          dsimp only
          cases parseHeaderLine (substr raw state.1 (eol - state.1)) state.2 with
          | none => rfl
          | some headers => simp only [hlength, hnext]
  · rw [if_neg hpos, if_neg hpos]

/-- At the beginning of a line the turn passes this line on. -/
theorem headerBranch_line {left line rest : Bytes} {headerEnd : ℕ} (hne : line ≠ [])
    (hline : find crlf line = none) (hend : left.length + line.length ≤ headerEnd) :
    headerBranch (left ++ (line ++ (crlf ++ rest))) headerEnd left.length = .line line := by
  have hpos := List.length_pos_iff.mpr hne
  have hfind : findFrom crlf (left ++ (line ++ (crlf ++ rest))) left.length =
      some (line.length + left.length) := by
    rw [findFrom_append_right, find_crlf_line hline]
    rfl
  have hsubstr : substr (left ++ (line ++ (crlf ++ rest))) left.length
      (line.length + left.length - left.length) = line := by
    simp [substr]
  simp only [headerBranch, hfind, hsubstr]
  rw [if_pos (by omega), if_neg (by omega), if_neg (by omega)]

theorem headerBranch_finished {raw : Bytes} {headerEnd pos : ℕ} (h : headerEnd ≤ pos) :
    headerBranch raw headerEnd pos = .finished :=
  if_neg (Nat.not_lt_of_le h)

/-- The header loop reads the lines between its position and the blank line, each once. -/
theorem headerLoop_writeLines (lines : List Bytes) (headers : StringMap) (left text : Bytes)
    (headerEnd : ℕ) (hne : ∀ line ∈ lines, line ≠ []) (hlines : ∀ line ∈ lines, find crlf line = none)
    (hend : headerEnd + 2 = (left ++ writeLines lines).length) :
    (headerLoop (left ++ writeLines lines ++ text) headerEnd).run (left.length, headers) =
      lines.foldlM (fun headers line ↦ parseHeaderLine line headers) headers := by
  induction lines generalizing left headers with
  | nil =>
    rw [writeLines_nil, List.append_nil] at hend
    refine WhileLoop.run_of_exit _ ?_
    rw [headerLoop_body, headerBranch_finished (by omega)]
    rfl
  | cons line lines ih =>
    obtain ⟨hline, hrest⟩ := List.forall_mem_cons.mp hlines
    obtain ⟨hneLine, hneRest⟩ := List.forall_mem_cons.mp hne
    have htext : left ++ writeLines (line :: lines) ++ text =
        left ++ (line ++ (crlf ++ (writeLines lines ++ text))) := by
      simp [List.append_assoc]
    have hlen : headerEnd + 2 = left.length + (line.length + 2 + (writeLines lines).length) := by
      rw [hend, writeLines_cons]
      simp only [List.length_append, crlf, List.length_cons, List.length_nil]
      omega
    have hbody := headerLoop_body (left ++ (line ++ (crlf ++ (writeLines lines ++ text)))) headerEnd
      (left.length, headers)
    rw [headerBranch_line hneLine hline (by omega)] at hbody
    rw [htext, List.foldlM_cons]
    cases hparse : parseHeaderLine line headers with
    | none =>
      refine WhileLoop.run_of_exit _ ?_
      simp only [hbody, hparse]
      rfl
    | some headers' =>
      simp only [hparse] at hbody
      have hleft : (left ++ (line ++ crlf)).length = left.length + line.length + 2 := by
        simp only [List.length_append, crlf, List.length_cons, List.length_nil]
        omega
      have hih := ih headers' (left ++ (line ++ crlf)) hneRest hrest
        (by rw [List.length_append, hleft]; omega)
      rw [WhileLoop.run_of_next _ hbody, ← hleft, Option.bind_eq_bind, Option.bind_some, ← hih]
      simp [List.append_assoc]

/-! ## The answer as a function of the head -/

/-- The request line and the header fields of a head. -/
def readHead (head : RequestHead) : Except ℕ HttpRequest :=
  if maxRequestLine < head.startLine.length then .error 431
  else
    match parseRequestLine head.startLine clear, head.fieldLines.mapM headerField with
    | some request, some fields => .ok { request with headers := insertAll fields request.headers }
    | _, _ => .error 400

/-- The length of the body, from the header fields that announce it. -/
def announcedLength (request : HttpRequest) : Except ℕ ℕ :=
  match bodyLength (request.getHeader (lit "Content-Length")) with
  | .error code => .error code
  | .ok bodyLen =>
    let te := request.getHeader (lit "Transfer-Encoding")
    if te ≠ [] ∧ te ≠ lit "identity" then .error 501 else .ok bodyLen

/-- The answer for a request whose head of `size` bytes is read, given the bytes behind the head. -/
def answerTo (request : HttpRequest) (size : ℕ) (rest : Bytes) : ParseOutcome :=
  match announcedLength request with
  | .error code => .error code
  | .ok bodyLen =>
    if rest.length < bodyLen then .needMore
    else
      .ok { request with
        body := rest.take bodyLen
        keepAlive := decideKeepAlive request } (size + bodyLen)

theorem parseHead_toBytes (head : RequestHead) (rest : Bytes) :
    parseHead (head.toBytes ++ rest) (head.toBytes.length - 4) =
      (readHead head).bind fun request ↦
        (announcedLength request).map fun bodyLen ↦ (request, bodyLen) := by
  have hlen := head.length_toBytes
  have hstart : substr (head.toBytes ++ rest) 0 head.startLine.length = head.startLine := by
    rw [RequestHead.toBytes_append]
    simp [substr]
  have hloop := fun headers ↦ headerLoop_writeLines head.fieldLines headers
    (head.startLine ++ crlf) (crlf ++ rest) (head.toBytes.length - 4) head.fieldLines_ne_nil
    head.find_fieldLines (by
      simp only [List.length_append, crlf, List.length_cons, List.length_nil]
      omega)
  have htext : head.startLine ++ crlf ++ writeLines head.fieldLines ++ (crlf ++ rest) =
      head.toBytes ++ rest := by
    simp [RequestHead.toBytes_append, List.append_assoc]
  have hpos : (head.startLine ++ crlf).length = head.startLine.length + 2 := by
    simp [crlf]
  rw [htext, hpos] at hloop
  unfold parseHead readHead
  simp only [head.find_crlf rest, hstart]
  split
  · rfl
  · cases parseRequestLine head.startLine clear with
    | none => cases head.fieldLines.mapM headerField <;> rfl
    | some request =>
      simp only [hloop, foldlM_parseHeaderLine]
      cases head.fieldLines.mapM headerField with
      | none => rfl
      | some fields =>
        simp only [Option.map_some, Except.bind]
        generalize HttpRequest.mk .. = read
        unfold announcedLength
        cases bodyLength (read.getHeader (lit "Content-Length")) with
        | error code => rfl
        | ok bodyLen =>
          dsimp only
          split <;> rfl

/-- The answer of `parse` depends on the request line, the header fields and the bytes behind. -/
theorem parse_toBytes (head : RequestHead) (rest : Bytes) :
    parse (head.toBytes ++ rest) =
      match readHead head with
      | .error code => .error code
      | .ok request => answerTo request head.toBytes.length rest := by
  have hfour : 4 ≤ head.toBytes.length := by
    rw [head.length_toBytes]
    omega
  rw [parse_eq_of_blankLine (head.find_blankLine rest), parseHead_toBytes, Nat.sub_add_cancel hfour]
  cases readHead head with
  | error code => rfl
  | ok request =>
    unfold answerTo
    simp only [Except.bind]
    cases announcedLength request with
    | error code => rfl
    | ok bodyLen =>
      simp only [Except.map, List.length_append, Nat.add_lt_add_iff_left, substr, List.drop_left]

/-- The header lines of a buffer; there are none before the blank line has arrived. -/
def headerLines (raw : Bytes) : List Bytes :=
  match find blankLine raw with
  | none => []
  | some headerEnd => (Message.readLines (raw.take (headerEnd + 2))).tail

theorem headerLines_toBytes (head : RequestHead) (rest : Bytes) :
    headerLines (head.toBytes ++ rest) = head.fieldLines := by
  have hlen := head.length_toBytes
  have htake : (head.toBytes ++ rest).take (head.toBytes.length - 4 + 2) =
      writeLines (head.startLine :: head.fieldLines) := by
    have hlines : head.toBytes.length - 4 + 2 =
        (writeLines (head.startLine :: head.fieldLines)).length := by
      simp only [writeLines_cons, List.length_append, crlf, List.length_cons, List.length_nil]
      omega
    rw [hlines, RequestHead.toBytes, List.append_assoc, List.take_left]
  unfold headerLines
  rw [head.find_blankLine rest]
  dsimp only
  rw [htake, Message.readLines_writeLines head.find_lines]
  rfl

/-- The path of an accepted request line begins with a slash and contains no white space. -/
theorem parseRequestLine_path {line : Bytes} {request : HttpRequest}
    (h : parseRequestLine line clear = some request) :
    request.path.head? = some slash ∧ ∀ c ∈ request.path, isSpace c = false := by
  unfold parseRequestLine at h
  simp only [Option.bind_eq_bind, Option.bind_eq_some_iff] at h
  obtain ⟨⟨method, rest⟩, -, ⟨path, rest'⟩, hpath, ⟨version, rest''⟩, -, h⟩ := h
  have hspace := isSpace_of_extractWord hpath
  dsimp only at h
  split at h
  · exact absurd h (by simp)
  · split at h
    · exact absurd h (by simp)
    · rename_i hslash
      rw [ne_eq, not_not] at hslash
      split at h
      · exact absurd h (by simp)
      · split at h
        · rename_i q hquestion
          obtain rfl := Option.some.inj h
          obtain ⟨tail, rfl⟩ := List.head?_eq_some_iff.mp hslash
          have hfirst : find [63] (slash :: tail) = (find [63] tail).map (· + 1) :=
            find_cons_of_not_prefixed fun hp ↦ by simp [slash] at hp
          rw [hfirst] at hquestion
          obtain ⟨i, -, rfl⟩ := Option.map_eq_some_iff.mp hquestion
          exact ⟨rfl, fun c hc ↦ hspace c (List.mem_of_mem_take hc)⟩
        · obtain rfl := Option.some.inj h
          exact ⟨hslash, hspace⟩

theorem parse_path {raw : Bytes} {request : HttpRequest} {consumed : ℕ}
    (h : parse raw = .ok request consumed) :
    request.path.head? = some slash ∧ ∀ c ∈ request.path, isSpace c = false := by
  obtain ⟨headerEnd, head, bodyLen, -, hhead, -, -, rfl⟩ := parse_ok_iff.mp h
  obtain ⟨lineEnd, start, headers, -, -, hstart, -, rfl, -⟩ := parseHead_ok_iff.mp hhead
  have hpath := parseRequestLine_path hstart
  exact hpath

theorem parseRequestLine_headers {line : Bytes} {request : HttpRequest}
    (h : parseRequestLine line clear = some request) : request.headers = ∅ := by
  unfold parseRequestLine at h
  simp only [Option.bind_eq_bind, Option.bind_eq_some_iff] at h
  obtain ⟨⟨method, rest⟩, -, ⟨path, rest'⟩, -, ⟨version, rest''⟩, -, h⟩ := h
  dsimp only at h
  split at h
  · exact absurd h (by simp)
  · split at h
    · exact absurd h (by simp)
    · split at h
      · exact absurd h (by simp)
      · split at h <;> exact (Option.some.inj h) ▸ rfl

end HttpRequest

end WebServer
