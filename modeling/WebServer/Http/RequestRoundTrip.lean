import WebServer.Http.HeaderLines
import WebServer.Http.Serialization

/-!
# Parsing undoes serialization

Each part of the parser is run on the part of a written message it reads: the word extraction on the
request line, the query loop on the query string, and the header lines one by one.
-/

namespace WebServer

open Bytes Search HeaderBlock

def HeaderField.entry (field : HeaderField) : Bytes × Bytes := (field.name, field.value)

def QueryPair.entry (pair : QueryPair) : Bytes × Bytes := (pair.key, pair.value)

namespace HttpRequest

/-! ## Query string -/

theorem addQueryPair_text (pair : QueryPair) (queryParams : StringMap) :
    addQueryPair pair.text queryParams = queryParams.insert pair.key pair.value := by
  have hfind : find [61] pair.text = some pair.key.length :=
    find_append_of_head_notMem pair.eq_notMem_key
  simp only [addQueryPair, hfind]
  simp [QueryPair.text]

theorem getline_append {delimiter : Byte} {item rest : Bytes} (h : delimiter ∉ item) :
    getline delimiter (item ++ delimiter :: rest) = some (item, rest) := by
  have hitem : ∀ c ∈ item, decide (c ≠ delimiter) = true := by
    intro c hc
    exact decide_eq_true fun heq ↦ h (heq ▸ hc)
  unfold getline
  rw [if_neg (by simp), List.takeWhile_append_of_pos hitem, List.dropWhile_append_of_pos hitem]
  simp

theorem getline_last {delimiter : Byte} {item : Bytes} (h : delimiter ∉ item) (hne : item ≠ []) :
    getline delimiter item = some (item, []) := by
  have hitem : ∀ c ∈ item, decide (c ≠ delimiter) = true := by
    intro c hc
    exact decide_eq_true fun heq ↦ h (heq ▸ hc)
  have htake : item.takeWhile (· ≠ delimiter) = item := List.takeWhile_eq_self_iff.mpr hitem
  have hdrop : item.dropWhile (· ≠ delimiter) = [] := List.dropWhile_eq_nil_iff.mpr hitem
  rw [getline, if_neg hne, htake, hdrop]
  rfl

theorem queryLoop_nil (queryParams : StringMap) : queryLoop.run ([], queryParams) = queryParams :=
  queryLoop.run_of_exit rfl

theorem queryLoop_next {text pair rest : Bytes} (h : getline 38 text = some (pair, rest))
    (queryParams : StringMap) :
    queryLoop.run (text, queryParams) = queryLoop.run (rest, addQueryPair pair queryParams) := by
  refine queryLoop.run_of_next ?_
  simp only [queryLoop, h]

/-- The query loop inserts the pairs in the order they are written. -/
theorem parseQueryParams_queryText (pairs : List QueryPair) (queryParams : StringMap) :
    parseQueryParams (RequestMessage.queryText pairs) queryParams =
      insertAll (pairs.map QueryPair.entry) queryParams := by
  unfold parseQueryParams
  induction pairs generalizing queryParams with
  | nil => exact queryLoop_nil queryParams
  | cons pair pairs ih =>
    cases pairs with
    | nil =>
      rw [RequestMessage.queryText_singleton, queryLoop_next (getline_last pair.amp_notMem_text
        pair.text_ne_nil), queryLoop_nil, addQueryPair_text]
      rfl
    | cons next pairs =>
      rw [RequestMessage.queryText_cons_cons,
        queryLoop_next (getline_append pair.amp_notMem_text), addQueryPair_text, ih]
      rfl

/-! ## Request line -/

/-- Three words with single spaces between them are a request line, if the second starts with a slash
and the third names the protocol. -/
theorem parseRequestLine_words {method target version : Bytes} (hmethod : method ≠ [])
    (hmethodSpace : ∀ c ∈ method, isSpace c = false) (htarget : target.head? = some slash)
    (htargetSpace : ∀ c ∈ target, isSpace c = false) (hversion : lit "HTTP/" <+: version)
    (hversionSpace : ∀ c ∈ version, isSpace c = false) (request : HttpRequest) :
    parseRequestLine (method ++ 32 :: (target ++ 32 :: version)) request =
      match find [63] target with
      | some q =>
        some { request with
          method := method
          path := target.take q
          version := version
          queryParams := parseQueryParams (target.drop (q + 1)) request.queryParams }
      | none => some { request with method := method, path := target, version := version } := by
  have hblank : isSpace 32 = true := by decide
  have htargetNe : target ≠ [] := by
    rintro rfl
    exact absurd htarget (by simp)
  have hversionNe : version ≠ [] := by
    rintro rfl
    exact absurd hversion (by decide)
  have hfirst : extractWord (method ++ 32 :: (target ++ 32 :: version)) =
      some (method, 32 :: (target ++ 32 :: version)) :=
    extractWord_append hmethod hmethodSpace (by simp [hblank])
  have hsecond : extractWord (32 :: (target ++ 32 :: version)) = some (target, 32 :: version) := by
    rw [extractWord_skip hblank]
    exact extractWord_append htargetNe htargetSpace (by simp [hblank])
  have hthird : extractWord (32 :: version) = some (version, []) := by
    rw [extractWord_skip hblank]
    have hword : extractWord (version ++ []) = some (version, []) :=
      extractWord_append hversionNe hversionSpace (by simp)
    rwa [List.append_nil] at hword
  have hpre : version.take 5 = lit "HTTP/" := (List.prefix_iff_eq_take.mp hversion).symm
  have hwords : ¬ (method = [] ∨ target = [] ∨ version = []) := by
    simp [hmethod, htargetNe, hversionNe]
  unfold parseRequestLine
  cases hquery : find [63] target <;>
    simp only [hfirst, hsecond, hthird, Option.bind_eq_bind, Option.bind_some, if_neg hwords,
      htarget, hpre, hquery, ne_eq, not_true_eq_false, if_false]

variable (message : RequestMessage)

theorem parseRequestLine_requestLine :
    parseRequestLine message.requestLine clear = some { clear with
      method := message.method
      path := message.path
      version := message.version
      queryParams := insertAll (message.queryPairs.map QueryPair.entry) ∅ } := by
  rw [RequestMessage.requestLine, parseRequestLine_words message.method_ne_nil
    message.method_no_space message.target_head message.target_no_space message.version_prefix
    message.version_no_space]
  unfold RequestMessage.target RequestMessage.queryPairs
  cases message.query with
  | none =>
    have hnone : find [63] message.path = none :=
      find_singleton_eq_none_iff.mpr message.question_notMem_path
    simp only [hnone]
    rfl
  | some pairs =>
    have hsome : find [63] (message.path ++ 63 :: RequestMessage.queryText pairs) =
        some message.path.length :=
      find_append_of_head_notMem message.question_notMem_path
    simp [hsome, parseQueryParams_queryText, clear]

/-! ## Header lines -/

theorem headerField_line (field : HeaderField) : headerField field.line = some field.entry := by
  have hfind : find [colon] field.line = some field.name.length :=
    find_append_of_head_notMem field.colon_notMem_name
  have hvalue : trim (field.line.drop (field.name.length + 1)) = field.value := by
    have hdrop : field.line.drop (field.name.length + 1) = 32 :: field.value := by
      simp [HeaderField.line]
    rw [hdrop, trim_cons_blank (by decide),
      trim_of_no_blank_ends field.head_value field.getLast_value]
  have hname : field.line.take field.name.length = field.name := by
    simp [HeaderField.line]
  simp only [headerField, hfind, hvalue, hname, if_neg field.name_ne_nil]
  rfl

theorem mapM_headerField_lines (fields : List HeaderField) :
    (fields.map HeaderField.line).mapM headerField = some (fields.map HeaderField.entry) := by
  induction fields with
  | nil => rfl
  | cons field fields ih =>
    rw [List.map_cons, List.mapM_cons, headerField_line, ih]
    rfl

/-! ## The whole message -/

theorem bodyLength_decimal {size : ℕ} (h : size ≤ maxBody) :
    bodyLength (decimal size) = .ok size := by
  have hdigits : (decimal size).any (!isDigit ·) = false := by
    rw [List.any_eq_false]
    intro c hc
    simp [isDigit_of_mem_decimal hc]
  have hbound : maxBody < 2 ^ 64 := by decide
  unfold bodyLength
  rw [if_neg (decimal_ne_nil size), hdigits, decimalValue_decimal, if_neg (by simp),
    if_neg (by omega), if_neg (by omega)]

theorem names_nodup_fields :
    ((message.fields.map HeaderField.entry).map Prod.fst).Nodup := by
  have hnames : (message.fields.map HeaderField.entry).map Prod.fst =
      message.fieldsBefore.map HeaderField.name ++ lit "Content-Length" ::
        message.fieldsAfter.map HeaderField.name := by
    simp [RequestMessage.fields, HeaderField.entry, Function.comp_def, contentLengthField]
  have hnew : lit "Content-Length" ∉
      (message.fieldsBefore ++ message.fieldsAfter).map HeaderField.name := by
    intro hmem
    obtain ⟨field, hfield, hname⟩ := List.mem_map.mp hmem
    exact (message.names_not_reserved field hfield).1 hname
  rw [hnames, List.perm_middle.nodup_iff, ← List.map_append, List.nodup_cons]
  exact ⟨hnew, message.names_nodup⟩

/-- The header map of a written message: its fields, and nothing else. -/
def writtenHeaders : StringMap := insertAll (message.fields.map HeaderField.entry) ∅

theorem getElem?_writtenHeaders {name value : Bytes} :
    (writtenHeaders message)[name]? = some value ↔
      ∃ field ∈ message.fields, field.name = name ∧ field.value = value := by
  rw [writtenHeaders, getElem?_insertAll_eq_some_iff (names_nodup_fields message), List.mem_map]
  simp only [HeaderField.entry, Prod.mk.injEq]

theorem getD_writtenHeaders_contentLength :
    (writtenHeaders message).getD (lit "Content-Length") [] = decimal message.body.length := by
  have h : (writtenHeaders message)[lit "Content-Length"]? = some (decimal message.body.length) :=
    (getElem?_writtenHeaders message).mpr
      ⟨contentLengthField message.body.length, by simp [RequestMessage.fields], rfl, rfl⟩
  rw [Std.ExtTreeMap.getD_eq_getD_getElem?, h]
  rfl

theorem getD_writtenHeaders_transferEncoding :
    (writtenHeaders message).getD (lit "Transfer-Encoding") [] = [] := by
  have h : (writtenHeaders message)[lit "Transfer-Encoding"]? = none := by
    rw [Option.eq_none_iff_forall_ne_some]
    intro value hvalue
    obtain ⟨field, hfield, hname, -⟩ := (getElem?_writtenHeaders message).mp hvalue
    rw [RequestMessage.fields, List.mem_append, List.mem_cons] at hfield
    rcases hfield with hbefore | rfl | hafter
    · exact (message.names_not_reserved field (List.mem_append_left _ hbefore)).2 hname
    · exact absurd hname (by decide : lit "Content-Length" ≠ lit "Transfer-Encoding")
    · exact (message.names_not_reserved field (List.mem_append_right _ hafter)).2 hname
  rw [Std.ExtTreeMap.getD_eq_getD_getElem?, h]
  rfl

/-- The head of a written message, as `parseHead` reads it. -/
def writtenHead : HttpRequest :=
  { clear with
    method := message.method
    path := message.path
    version := message.version
    headers := writtenHeaders message
    queryParams := insertAll (message.queryPairs.map QueryPair.entry) ∅ }

/-- The header block of a message as the lines in front of its blank line. -/
def writtenLines : RequestHead where
  startLine := message.headerBlock.startLine
  fieldLines := message.headerBlock.fieldLines
  find_startLine := find_crlf_eq_none message.headerBlock.cr_notMem_startLine
  find_fieldLines line hmem := find_crlf_eq_none (message.headerBlock.cr_notMem_fieldLines line hmem)
  fieldLines_ne_nil := message.headerBlock.fieldLines_ne_nil

theorem readHead_writtenLines (hline : message.requestLine.length ≤ maxRequestLine) :
    readHead (writtenLines message) = .ok (writtenHead message) := by
  have hstart : (writtenLines message).startLine = message.requestLine := rfl
  have hfields : (writtenLines message).fieldLines.mapM headerField =
      some (message.fields.map HeaderField.entry) := mapM_headerField_lines message.fields
  unfold readHead
  rw [hstart, if_neg (Nat.not_lt_of_le hline), hfields, parseRequestLine_requestLine]
  rfl

theorem announcedLength_writtenHead :
    announcedLength (writtenHead message) = .ok message.body.length := by
  have hlength : (writtenHead message).getHeader (lit "Content-Length") =
      decimal message.body.length := getD_writtenHeaders_contentLength message
  have hencoding : (writtenHead message).getHeader (lit "Transfer-Encoding") = [] :=
    getD_writtenHeaders_transferEncoding message
  unfold announcedLength
  rw [hlength, hencoding, bodyLength_decimal message.body_length_le]
  rfl

theorem parse_serialize_eq (rest : Bytes)
    (hline : message.requestLine.length ≤ maxRequestLine) :
    parse (message.serialize ++ rest) = .ok { writtenHead message with
      body := message.body
      keepAlive := decideKeepAlive (writtenHead message) } message.serialize.length := by
  have hsplit : message.serialize ++ rest =
      (writtenLines message).toBytes ++ (message.body ++ rest) := by
    rw [RequestMessage.serialize, List.append_assoc]
    rfl
  have hlength : message.serialize.length =
      (writtenLines message).toBytes.length + message.body.length := List.length_append
  have henough : ¬ (message.body ++ rest).length < message.body.length := by
    rw [List.length_append]
    omega
  rw [hsplit, parse_toBytes, readHead_writtenLines message hline]
  simp only [answerTo, announcedLength_writtenHead, if_neg henough, List.take_left, hlength]

/-- Parsing a written message, whatever bytes follow it, gives back every part of the message: the
header map holds exactly the written fields, and of several query pairs with one key the last one
counts. -/
theorem parse_serialize (rest : Bytes) (hline : message.requestLine.length ≤ maxRequestLine) :
    ∃ request, parse (message.serialize ++ rest) = .ok request message.serialize.length ∧
      request.method = message.method ∧
      request.path = message.path ∧
      request.version = message.version ∧
      request.body = message.body ∧
      (∀ name value, request.headers[name]? = some value ↔
        ∃ field ∈ message.fields, field.name = name ∧ field.value = value) ∧
      (∀ field ∈ message.fields, request.getHeader field.name = field.value) ∧
      ∀ key, request.queryParams[key]? =
        (message.queryPairs.map QueryPair.entry).reverse.lookup key := by
  refine ⟨_, parse_serialize_eq message rest hline, rfl, rfl, rfl, rfl,
    fun name value ↦ getElem?_writtenHeaders message, fun field hfield ↦ ?_, fun key ↦ ?_⟩
  · have h := (getElem?_writtenHeaders message).mpr ⟨field, hfield, rfl, rfl⟩
    rw [getHeader, Std.ExtTreeMap.getD_eq_getD_getElem?]
    exact congrArg (Option.getD · []) h
  · exact (getElem?_insertAll _ ∅ key).trans (by simp)

def sampleField : HeaderField where
  name := lit "Host"
  value := lit "a b"
  name_ne_nil := by decide
  colon_notMem_name := by decide
  cr_notMem_name := by decide
  lf_notMem_name := by decide
  cr_notMem_value := by decide
  lf_notMem_value := by decide
  head_value := by decide +kernel
  getLast_value := by decide +kernel

/-- A `PUT` with a query string, header fields on both sides of `Content-Length` and a body that
contains a blank line. -/
def sampleMessage : RequestMessage where
  method := lit "PUT"
  path := lit "/kv/a"
  version := lit "HTTP/1.1"
  query := some
    [{ key := lit "k", value := lit "1"
       key_ne_nil := by decide, eq_notMem_key := by decide, amp_notMem_key := by decide
       amp_notMem_value := by decide
       key_no_space := by decide +kernel, value_no_space := by decide +kernel },
     { key := lit "k", value := lit "=2"
       key_ne_nil := by decide, eq_notMem_key := by decide, amp_notMem_key := by decide
       amp_notMem_value := by decide
       key_no_space := by decide +kernel, value_no_space := by decide +kernel }]
  fieldsBefore := [sampleField]
  fieldsAfter :=
    [{ name := lit "Empty", value := []
       name_ne_nil := by decide, colon_notMem_name := by decide, cr_notMem_name := by decide
       lf_notMem_name := by decide, cr_notMem_value := by decide, lf_notMem_value := by decide
       head_value := by decide +kernel, getLast_value := by decide +kernel }]
  body := lit "x\r\n\r\n"
  method_ne_nil := by decide
  method_no_space := by decide +kernel
  path_head := by decide
  path_no_space := by decide +kernel
  question_notMem_path := by decide
  version_prefix := by decide
  version_no_space := by decide +kernel
  names_nodup := by decide
  names_not_reserved := by decide
  body_length_le := by decide

theorem parse_serialize_sampleMessage :
    ∃ request, parse (sampleMessage.serialize ++ lit "GET") =
        .ok request sampleMessage.serialize.length ∧
      request.body = lit "x\r\n\r\n" ∧ request.getHeader (lit "Host") = lit "a b" ∧
      request.queryParams[lit "k"]? = some (lit "=2") := by
  obtain ⟨request, hparse, -, -, -, hbody, -, hheader, hquery⟩ :=
    parse_serialize sampleMessage (lit "GET") (by decide)
  refine ⟨request, hparse, hbody, ?_, ?_⟩
  · exact hheader sampleField List.mem_cons_self
  · rw [hquery]
    decide

end HttpRequest

end WebServer
