import Mathlib.Data.Nat.Digits.Lemmas
import WebServer.Http.RequestLimits
import WebServer.Service.KVRouting

/-!
# Streams of requests on the store

A client of the store writes keep-alive requests one after the other. Whatever part of the stream has
arrived, the parser sees either the first request complete, and then exactly this request, or nothing it
can decide about yet.
-/

namespace WebServer

open Bytes Search HttpRequest HeaderBlock

inductive KVMethod where
  | put
  | get
  | delete
  deriving DecidableEq

def KVMethod.text : KVMethod → Bytes
  | put => lit "PUT"
  | get => lit "GET"
  | delete => lit "DELETE"

theorem KVMethod.text_ne_nil (method : KVMethod) : method.text ≠ [] := by
  cases method <;> decide

theorem KVMethod.text_no_space (method : KVMethod) : ∀ c ∈ method.text, isSpace c = false := by
  cases method <;> decide +kernel

/-- The parts of a request for /kv/<key>, with the header fields in the order they are written. -/
structure KVParts where
  method : KVMethod
  key : Bytes
  fields : List HeaderField
  body : Bytes

namespace KVParts

variable (parts : KVParts)

def path : Bytes := lit "/kv/" ++ parts.key

def requestLine : Bytes := parts.method.text ++ 32 :: (parts.path ++ 32 :: lit "HTTP/1.1")

/-- Request line, header lines and blank line. -/
def headText : Bytes :=
  writeLines (parts.requestLine :: parts.fields.map HeaderField.line) ++ crlf

end KVParts

/-- A request over a connection that is to be kept, with a body that its `Content-Length` fields
announce, within the limits of the parser. -/
structure KVRequest extends KVParts where
  key_ne_nil : key ≠ []
  slash_notMem_key : slash ∉ key
  question_notMem_key : 63 ∉ key
  key_no_space : ∀ c ∈ key, isSpace c = false
  contentLength : ∀ field ∈ fields, field.name = lit "Content-Length" →
    field.value = decimal body.length
  announced : body ≠ [] → ∃ field ∈ fields, field.name = lit "Content-Length"
  no_transferEncoding : ∀ field ∈ fields, field.name ≠ lit "Transfer-Encoding"
  keeps_alive : ∀ field ∈ fields, field.name = lit "Connection" → field.value ≠ lit "close"
  body_length_le : body.length ≤ maxBody
  requestLine_length_le : toKVParts.requestLine.length ≤ maxRequestLine
  headText_length_le : toKVParts.headText.length ≤ maxHeaderTotal

namespace KVRequest

variable (request : KVRequest)

def serialize : Bytes := request.headText ++ request.body

/-- The call on the map the request stands for. -/
def call : MapCall Bytes Bytes :=
  match request.method with
  | .put => .put request.key request.body
  | .get => .get request.key
  | .delete => .delete request.key

/-! ## Requests without further header fields -/

theorem length_decimal_le {n k : ℕ} (hk : 0 < k) (h : n < 10 ^ k) : (decimal n).length ≤ k := by
  unfold decimal
  split
  · exact hk
  · rw [List.length_map, List.length_reverse]
    exact (Nat.digits_length_le_iff (by norm_num) n).mpr h

section OnlyContentLength

variable (size : ℕ)

theorem value_of_mem_contentLengthField : ∀ field ∈ [contentLengthField size],
    field.name = lit "Content-Length" → field.value = decimal size := by
  intro field hfield _
  rw [List.mem_singleton.mp hfield]
  rfl

theorem name_of_mem_contentLengthField : ∀ field ∈ [contentLengthField size],
    field.name = lit "Content-Length" := by
  intro field hfield
  rw [List.mem_singleton.mp hfield]
  rfl

theorem contentLengthField_not_transferEncoding :
    ∀ field ∈ [contentLengthField size], field.name ≠ lit "Transfer-Encoding" := by
  intro field hfield
  rw [name_of_mem_contentLengthField size field hfield]
  decide

theorem contentLengthField_keeps_alive : ∀ field ∈ [contentLengthField size],
    field.name = lit "Connection" → field.value ≠ lit "close" := by
  intro field hfield hname
  rw [name_of_mem_contentLengthField size field hfield] at hname
  exact absurd hname (by decide)

theorem length_headText_contentLengthField (method : KVMethod) (key body : Bytes)
    (hbody : body.length ≤ maxBody)
    (hline : (KVParts.mk method key [] []).requestLine.length ≤ maxRequestLine) :
    (KVParts.mk method key [contentLengthField body.length] body).headText.length ≤
      maxHeaderTotal := by
  have hbound : body.length < 10 ^ 8 := hbody.trans_lt (by decide)
  have hdigits := length_decimal_le (by norm_num) hbound
  have hname : (contentLengthField body.length).name.length = 14 := rfl
  have hvalue : (contentLengthField body.length).value = decimal body.length := rfl
  have hsame : (KVParts.mk method key [contentLengthField body.length] body).requestLine.length ≤
      8192 := hline
  have hmax : maxHeaderTotal = 65536 := rfl
  simp only [KVParts.headText, List.map_cons, List.map_nil, writeLines_cons, writeLines_nil,
    HeaderField.line, hvalue, crlf, List.length_append, List.length_cons, List.length_nil, hname]
  omega

end OnlyContentLength

/-- A key that fits the request line and a body that is not too long make a request, whatever their
bytes are. -/
def ofBody (method : KVMethod) (key body : Bytes) (key_ne_nil : key ≠ [])
    (slash_notMem_key : slash ∉ key) (question_notMem_key : 63 ∉ key)
    (key_no_space : ∀ c ∈ key, isSpace c = false) (body_length_le : body.length ≤ maxBody)
    (requestLine_length_le : (KVParts.mk method key [] []).requestLine.length ≤ maxRequestLine) :
    KVRequest where
  method := method
  key := key
  fields := [contentLengthField body.length]
  body := body
  key_ne_nil := key_ne_nil
  slash_notMem_key := slash_notMem_key
  question_notMem_key := question_notMem_key
  key_no_space := key_no_space
  contentLength := value_of_mem_contentLengthField body.length
  announced _ := ⟨contentLengthField body.length, List.mem_cons_self, rfl⟩
  no_transferEncoding := contentLengthField_not_transferEncoding body.length
  keeps_alive := contentLengthField_keeps_alive body.length
  body_length_le := body_length_le
  requestLine_length_le := requestLine_length_le
  headText_length_le := length_headText_contentLengthField method key body body_length_le
    requestLine_length_le

/-! ## Parsing a request -/

theorem path_no_space : ∀ c ∈ request.path, isSpace c = false := by
  intro c hc
  rcases List.mem_append.mp hc with hroute | hkey
  · have hall : ∀ c ∈ lit "/kv/", isSpace c = false := by decide +kernel
    exact hall c hroute
  · exact request.key_no_space c hkey

theorem question_notMem_path : 63 ∉ request.path := by
  intro hmem
  rcases List.mem_append.mp hmem with hroute | hkey
  · exact absurd hroute (by decide)
  · exact request.question_notMem_key hkey

/-- The same request with no header field but its `Content-Length`. -/
def plain : RequestMessage where
  method := request.method.text
  path := request.path
  version := lit "HTTP/1.1"
  query := none
  fieldsBefore := []
  fieldsAfter := []
  body := request.body
  method_ne_nil := request.method.text_ne_nil
  method_no_space := request.method.text_no_space
  path_head := rfl
  path_no_space := request.path_no_space
  question_notMem_path := request.question_notMem_path
  version_prefix := sampleMessage.version_prefix
  version_no_space := sampleMessage.version_no_space
  names_nodup := List.nodup_nil
  names_not_reserved := by simp
  body_length_le := request.body_length_le

def head : RequestHead where
  startLine := request.requestLine
  fieldLines := request.fields.map HeaderField.line
  find_startLine := find_crlf_eq_none request.plain.cr_notMem_requestLine
  find_fieldLines := by
    intro line hline
    obtain ⟨field, -, rfl⟩ := List.mem_map.mp hline
    exact find_crlf_eq_none field.cr_notMem_line
  fieldLines_ne_nil := by
    intro line hline
    obtain ⟨field, -, rfl⟩ := List.mem_map.mp hline
    exact field.line_ne_nil

/-- Method, path and version as the parser returns them. -/
def start : HttpRequest :=
  { clear with method := request.method.text, path := request.path, version := lit "HTTP/1.1" }

def entries : List (Bytes × Bytes) := request.fields.map HeaderField.entry

/-- The request as the parser returns it. -/
def parsed : HttpRequest :=
  { request.start.withFields request.entries with
    body := request.body
    keepAlive := decideKeepAlive (request.start.withFields request.entries) }

theorem readHead_head : readHead request.head = .ok (request.start.withFields request.entries) := by
  have hline : ¬ maxRequestLine < request.head.startLine.length :=
    Nat.not_lt_of_le request.requestLine_length_le
  have hstart : parseRequestLine request.head.startLine clear = some request.start :=
    parseRequestLine_requestLine request.plain
  have hfields : request.head.fieldLines.mapM headerField = some request.entries :=
    mapM_headerField_lines request.fields
  unfold readHead
  rw [if_neg hline, hstart, hfields]
  rfl

theorem getHeader_start_eq_or (name : Bytes) :
    (request.start.withFields request.entries).getHeader name = [] ∨
      ∃ field ∈ request.fields, field.name = name ∧
        (request.start.withFields request.entries).getHeader name = field.value := by
  rcases getHeader_withFields_cases request.start request.entries name with hnil | hentry
  · exact .inl hnil
  · obtain ⟨entry, hmem, hname, hvalue⟩ := hentry
    obtain ⟨field, hfield, rfl⟩ := List.mem_map.mp hmem
    exact .inr ⟨field, hfield, hname, hvalue⟩

theorem bodyLength_contentLength :
    bodyLength ((request.start.withFields request.entries).getHeader (lit "Content-Length")) =
      .ok request.body.length := by
  by_cases hsome : ∃ field ∈ request.fields, field.name = lit "Content-Length"
  · have hvalue : (request.start.withFields request.entries).getHeader (lit "Content-Length") =
        decimal request.body.length := by
      refine getHeader_withFields_of_forall _ _ _ ?_ ?_
      · intro entry hmem hname
        obtain ⟨field, hfield, rfl⟩ := List.mem_map.mp hmem
        exact request.contentLength field hfield hname
      · obtain ⟨field, hfield, hname⟩ := hsome
        exact ⟨field.entry, List.mem_map_of_mem hfield, hname⟩
    rw [hvalue]
    exact bodyLength_decimal request.body_length_le
  · have hbody : request.body = [] := by
      by_contra hne
      exact hsome (request.announced hne)
    rcases request.getHeader_start_eq_or (lit "Content-Length") with hnil | hfield
    · rw [hnil, hbody]
      rfl
    · obtain ⟨field, hmem, hname, -⟩ := hfield
      exact absurd ⟨field, hmem, hname⟩ hsome

theorem announcedLength_start :
    announcedLength (request.start.withFields request.entries) = .ok request.body.length := by
  have hencoding : (request.start.withFields request.entries).getHeader (lit "Transfer-Encoding") =
      [] := by
    rcases request.getHeader_start_eq_or (lit "Transfer-Encoding") with hnil | hfield
    · exact hnil
    · obtain ⟨field, hmem, hname, -⟩ := hfield
      exact absurd hname (request.no_transferEncoding field hmem)
  unfold announcedLength
  rw [request.bodyLength_contentLength, hencoding]
  rfl

theorem serialize_append (rest : Bytes) :
    request.serialize ++ rest = request.head.toBytes ++ (request.body ++ rest) := by
  rw [serialize, List.append_assoc]
  rfl

theorem parse_serialize_append (rest : Bytes) :
    parse (request.serialize ++ rest) = .ok request.parsed request.serialize.length := by
  have hlength : request.serialize.length = request.head.toBytes.length + request.body.length :=
    List.length_append
  have henough : ¬ (request.body ++ rest).length < request.body.length := by
    rw [List.length_append]
    omega
  rw [serialize_append, parse_toBytes, readHead_head]
  simp only [answerTo, announcedLength_start, if_neg henough, List.take_left, hlength]
  rfl

theorem keepAlive_parsed : request.parsed.keepAlive = true := by
  have hconnection : (request.start.withFields request.entries).getHeader (lit "Connection") ≠
      lit "close" := by
    rcases request.getHeader_start_eq_or (lit "Connection") with hnil | hfield
    · rw [hnil]
      decide
    · obtain ⟨field, hmem, hname, hvalue⟩ := hfield
      rw [hvalue]
      exact request.keeps_alive field hmem hname
  have hversion : (request.start.withFields request.entries).version = lit "HTTP/1.1" := rfl
  change decideKeepAlive (request.start.withFields request.entries) = true
  unfold decideKeepAlive
  rw [if_pos hversion]
  exact decide_eq_true hconnection

theorem isKVRequest_parsed : IsKVRequest request.parsed := by
  have hmethod : request.parsed.method = request.method.text := rfl
  refine ⟨?_, request.key, request.key_ne_nil, request.slash_notMem_key, rfl⟩
  rw [hmethod]
  cases request.method with
  | put => exact .inl rfl
  | get => exact .inr (.inl rfl)
  | delete => exact .inr (.inr rfl)

theorem callOf_parsed : callOf request.parsed = request.call := by
  have hmethod : request.parsed.method = request.method.text := rfl
  have hkey : request.parsed.path.drop 4 = request.key := rfl
  have hbody : request.parsed.body = request.body := rfl
  have hget : lit "GET" ≠ lit "PUT" := by decide
  have hput : lit "DELETE" ≠ lit "PUT" := by decide
  have hdelete : lit "DELETE" ≠ lit "GET" := by decide
  unfold callOf call
  rw [hmethod, hkey, hbody]
  cases request.method with
  | put => exact if_pos rfl
  | get => exact (if_neg hget).trans (if_pos rfl)
  | delete => exact (if_neg hput).trans (if_neg hdelete)

/-! ## Reading a stream -/

/-- The bytes of several requests. -/
def stream (requests : List KVRequest) : Bytes := requests.flatMap serialize

/-- A part of a request that is not the whole needs more input. -/
theorem parse_of_part {part missing : Bytes} (hmissing : missing ≠ [])
    (hsplit : request.serialize = part ++ missing) : parse part = .needMore := by
  have hwhole := request.parse_serialize_append []
  rw [List.append_nil, hsplit] at hwhole
  have hpos := List.length_pos_iff.mpr hmissing
  cases hparse : parse part with
  | needMore => rfl
  | ok parsed consumed =>
    have hle := (parse_consumed_bounds hparse).2
    have hsame := (parse_append_of_ok hparse missing).symm.trans hwhole
    obtain ⟨-, rfl⟩ := Verdict.ok.inj hsame
    rw [List.length_append] at hle
    omega
  | error code =>
    cases hend : find blankLine part with
    | some headerEnd =>
      have hsame := (parse_append_of_error hend hparse missing).symm.trans hwhole
      exact absurd hsame (by simp)
    | none =>
      obtain ⟨-, hlong⟩ := parse_error_of_no_blankLine hend hparse
      -- the head is in the part already, and its blank line with it
      have hblock := request.head.find_blankLine request.body
      have hhead := request.head.length_toBytes
      have hfits : request.head.toBytes.length ≤ maxHeaderTotal := request.headText_length_le
      have hlength : blankLine.length = 4 := rfl
      have hpre : part <+: request.head.toBytes ++ request.body := ⟨missing, hsplit.symm⟩
      have hfound := find_of_prefixed hpre hblock (by omega)
      exact absurd (hend.symm.trans hfound) (by simp)

/-- Of a stream that has arrived in part, the parser sees the first request or nothing yet. -/
theorem parse_stream {requests : List KVRequest} {buffer : Bytes} (h : buffer <+: stream requests) :
    (∃ first later tail, requests = first :: later ∧ buffer = first.serialize ++ tail ∧
      tail <+: stream later ∧ parse buffer = .ok first.parsed first.serialize.length) ∨
    (parse buffer = .needMore ∧ (buffer = stream requests → requests = [])) := by
  cases requests with
  | nil =>
    obtain rfl := List.prefix_nil.mp h
    exact .inr ⟨rfl, fun _ ↦ rfl⟩
  | cons first later =>
    have hstream : stream (first :: later) = first.serialize ++ stream later := rfl
    rw [hstream] at h
    rcases List.prefix_or_prefix_of_prefix h (List.prefix_append ..) with hpart | hwhole
    · by_cases hsame : buffer = first.serialize
      · subst hsame
        refine .inl ⟨first, later, [], rfl, (List.append_nil _).symm, List.nil_prefix, ?_⟩
        have hparse := first.parse_serialize_append []
        rwa [List.append_nil] at hparse
      · obtain ⟨missing, hmissing⟩ := hpart
        have hne : missing ≠ [] := by
          rintro rfl
          exact hsame (by rw [← hmissing, List.append_nil])
        refine .inr ⟨first.parse_of_part hne hmissing.symm, fun hall ↦ ?_⟩
        have hlength := congrArg List.length hall
        have hpos := List.length_pos_iff.mpr hne
        rw [hstream, List.length_append, ← hmissing, List.length_append] at hlength
        omega
    · obtain ⟨tail, rfl⟩ := hwhole
      refine .inl ⟨first, later, tail, rfl, rfl, ?_, first.parse_serialize_append tail⟩
      exact (List.prefix_append_right_inj _).mp h

end KVRequest

end WebServer
