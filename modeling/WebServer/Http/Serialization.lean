import WebServer.Http.HeaderBlock
import WebServer.Http.RequestStability

/-!
# Requests as clients write them

A `RequestMessage` is a request that can be written in the standard form: a request line, header
lines, and a body whose length a `Content-Length` line announces. The parser inverts the
serialization: it accepts exactly the written bytes, whatever follows them, and gives back every part
of the message.
-/

namespace WebServer

open Bytes Search

/-! ## Messages -/

/-- A header field that one line can carry. -/
structure HeaderField where
  name : Bytes
  value : Bytes
  name_ne_nil : name ≠ []
  colon_notMem_name : colon ∉ name
  cr_notMem_name : cr ∉ name
  lf_notMem_name : lf ∉ name
  cr_notMem_value : cr ∉ value
  lf_notMem_value : lf ∉ value
  head_value : ∀ c ∈ value.head?, isBlank c = false
  getLast_value : ∀ c ∈ value.getLast?, isBlank c = false

/-- A query parameter of the form `key=value`. -/
structure QueryPair where
  key : Bytes
  value : Bytes
  key_ne_nil : key ≠ []
  eq_notMem_key : 61 ∉ key
  amp_notMem_key : 38 ∉ key
  amp_notMem_value : 38 ∉ value
  key_no_space : ∀ c ∈ key, isSpace c = false
  value_no_space : ∀ c ∈ value, isSpace c = false

structure RequestMessage where
  method : Bytes
  path : Bytes
  version : Bytes
  query : Option (List QueryPair)
  /-- The header fields written before the `Content-Length` line. -/
  fieldsBefore : List HeaderField
  /-- The header fields written after the `Content-Length` line. -/
  fieldsAfter : List HeaderField
  body : Bytes
  method_ne_nil : method ≠ []
  method_no_space : ∀ c ∈ method, isSpace c = false
  path_head : path.head? = some slash
  path_no_space : ∀ c ∈ path, isSpace c = false
  question_notMem_path : 63 ∉ path
  version_prefix : lit "HTTP/" <+: version
  version_no_space : ∀ c ∈ version, isSpace c = false
  names_nodup : ((fieldsBefore ++ fieldsAfter).map HeaderField.name).Nodup
  names_not_reserved : ∀ field ∈ fieldsBefore ++ fieldsAfter,
    field.name ≠ lit "Content-Length" ∧ field.name ≠ lit "Transfer-Encoding"
  body_length_le : body.length ≤ HttpRequest.maxBody

def HeaderField.line (field : HeaderField) : Bytes :=
  field.name ++ colon :: 32 :: field.value

def QueryPair.text (pair : QueryPair) : Bytes := pair.key ++ 61 :: pair.value

theorem isBlank_of_isDigit {c : Byte} (hc : isDigit c = true) : isBlank c = false := by
  have hle : 48 ≤ c.toNat := by
    simp only [isDigit, Bool.and_eq_true, decide_eq_true_eq, UInt8.le_iff_toNat_le] at hc
    exact hc.1
  simp only [isBlank, Bool.or_eq_false_iff, decide_eq_false_iff_not]
  constructor <;> rintro rfl <;> simp at hle

/-- The `Content-Length` line of a body of the given size. -/
def contentLengthField (size : ℕ) : HeaderField where
  name := lit "Content-Length"
  value := decimal size
  name_ne_nil := by decide
  colon_notMem_name := by decide
  cr_notMem_name := by decide
  lf_notMem_name := by decide
  cr_notMem_value := notMem_decimal (by decide)
  lf_notMem_value := notMem_decimal (by decide)
  head_value c hc := isBlank_of_isDigit (isDigit_of_mem_decimal (List.mem_of_mem_head? hc))
  getLast_value c hc := isBlank_of_isDigit (isDigit_of_mem_decimal (List.mem_of_mem_getLast? hc))

namespace RequestMessage

variable (message : RequestMessage)

def queryPairs : List QueryPair := message.query.getD []

def queryText (pairs : List QueryPair) : Bytes :=
  List.intercalate [38] (pairs.map QueryPair.text)

/-- The request target: the path, and the query string behind a question mark. -/
def target : Bytes :=
  match message.query with
  | none => message.path
  | some pairs => message.path ++ 63 :: queryText pairs

def requestLine : Bytes :=
  message.method ++ 32 :: (message.target ++ 32 :: message.version)

/-- All header fields in the order they are written. -/
def fields : List HeaderField :=
  message.fieldsBefore ++ contentLengthField message.body.length :: message.fieldsAfter

end RequestMessage

theorem cr_notMem_of_no_space {text : Bytes} (h : ∀ c ∈ text, isSpace c = false) : cr ∉ text :=
  fun hmem ↦ absurd (h cr hmem) (by decide)

theorem HeaderField.line_ne_nil (field : HeaderField) : field.line ≠ [] := by
  simp [HeaderField.line]

theorem HeaderField.cr_notMem_line (field : HeaderField) : cr ∉ field.line := by
  have hcolon : cr ≠ colon := by decide
  have hspace : cr ≠ 32 := by decide
  simp [HeaderField.line, field.cr_notMem_name, field.cr_notMem_value, hcolon, hspace]

theorem QueryPair.text_ne_nil (pair : QueryPair) : pair.text ≠ [] := by
  simp [QueryPair.text]

theorem QueryPair.no_space (pair : QueryPair) : ∀ c ∈ pair.text, isSpace c = false := by
  intro c hc
  rcases List.mem_append.mp hc with hkey | hrest
  · exact pair.key_no_space c hkey
  · rcases List.mem_cons.mp hrest with rfl | hvalue
    · decide
    · exact pair.value_no_space c hvalue

theorem QueryPair.amp_notMem_text (pair : QueryPair) : 38 ∉ pair.text := by
  simp [QueryPair.text, pair.amp_notMem_key, pair.amp_notMem_value]

namespace RequestMessage

theorem queryText_cons_cons (first second : QueryPair) (pairs : List QueryPair) :
    queryText (first :: second :: pairs) = first.text ++ 38 :: queryText (second :: pairs) := by
  simp [queryText, List.intercalate]

theorem queryText_singleton (pair : QueryPair) : queryText [pair] = pair.text := by
  simp [queryText, List.intercalate]

theorem queryText_no_space (pairs : List QueryPair) :
    ∀ c ∈ queryText pairs, isSpace c = false := by
  induction pairs with
  | nil => simp [queryText, List.intercalate]
  | cons pair pairs ih =>
    cases pairs with
    | nil =>
      rw [queryText_singleton]
      exact pair.no_space
    | cons next pairs =>
      intro c hc
      rw [queryText_cons_cons] at hc
      rcases List.mem_append.mp hc with hpair | hrest
      · exact pair.no_space c hpair
      · rcases List.mem_cons.mp hrest with rfl | hrest
        · decide
        · exact ih c hrest

variable (message : RequestMessage)

theorem target_no_space : ∀ c ∈ message.target, isSpace c = false := by
  unfold target
  cases message.query with
  | none => exact message.path_no_space
  | some pairs =>
    intro c hc
    rcases List.mem_append.mp hc with hpath | hrest
    · exact message.path_no_space c hpath
    · rcases List.mem_cons.mp hrest with rfl | hquery
      · decide
      · exact queryText_no_space pairs c hquery

theorem target_head : message.target.head? = some slash := by
  unfold target
  cases message.query with
  | none => exact message.path_head
  | some pairs => rw [List.head?_append, message.path_head]; rfl

theorem cr_notMem_requestLine : cr ∉ message.requestLine := by
  have hspace : cr ≠ 32 := by decide
  simp [requestLine, hspace, cr_notMem_of_no_space message.method_no_space,
    cr_notMem_of_no_space message.target_no_space, cr_notMem_of_no_space message.version_no_space]

/-- The lines before the body. -/
def headerBlock : HeaderBlock where
  startLine := message.requestLine
  fieldLines := message.fields.map HeaderField.line
  startLine_ne_nil := by simp [requestLine]
  fieldLines_ne_nil := by
    intro line hline
    obtain ⟨field, -, rfl⟩ := List.mem_map.mp hline
    exact field.line_ne_nil
  cr_notMem_startLine := message.cr_notMem_requestLine
  cr_notMem_fieldLines := by
    intro line hline
    obtain ⟨field, -, rfl⟩ := List.mem_map.mp hline
    exact field.cr_notMem_line

def serialize : Bytes := message.headerBlock.toBytes ++ message.body

end RequestMessage

end WebServer
