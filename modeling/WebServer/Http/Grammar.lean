import WebServer.Http.ContentLength

/-!
# The language of requests

A request text is a request line, header lines and a body, each written with all the freedom the parser
leaves: any white space between the words of the request line and anything behind them, blanks around a
header value, any number of equal header names, a query with empty pieces. The parser accepts exactly the
buffers that begin with such a text, and what it returns is read off its parts.
-/

namespace WebServer

open Bytes Search HeaderBlock

namespace HttpRequest

/-! ## Words -/

def IsWord (text : Bytes) : Prop := text ≠ [] ∧ ∀ c ∈ text, isSpace c = false

def IsGap (text : Bytes) : Prop := ∀ c ∈ text, isSpace c = true

theorem extractWord_eq_some_iff {text word rest : Bytes} :
    extractWord text = some (word, rest) ↔ IsWord word ∧ (∀ c ∈ rest.head?, isSpace c = true) ∧
      ∃ gap, IsGap gap ∧ text = gap ++ (word ++ rest) := by
  constructor
  · intro h
    have hspace := isSpace_of_extractWord h
    unfold extractWord at h
    dsimp only at h
    split at h
    · exact absurd h (by simp)
    · rename_i hne
      obtain ⟨rfl, rfl⟩ := Prod.mk.inj (Option.some.inj h)
      refine ⟨⟨hne, hspace⟩, ?_, text.takeWhile isSpace, fun c ↦ List.mem_takeWhile_imp, ?_⟩
      · intro c hc
        have hstop := List.head?_dropWhile_not (!isSpace ·) (text.dropWhile isSpace)
        rw [Option.mem_def.mp hc] at hstop
        simpa using hstop
      · rw [List.takeWhile_append_dropWhile, List.takeWhile_append_dropWhile]
  · rintro ⟨⟨hne, hword⟩, hrest, gap, hgap, rfl⟩
    induction gap with
    | nil => exact extractWord_append hne hword hrest
    | cons c gap ih =>
      obtain ⟨hc, htail⟩ := List.forall_mem_cons.mp hgap
      rw [List.cons_append, extractWord_skip hc]
      exact ih htail

/-- White space separates two words exactly when there is some. -/
theorem gap_ne_nil_iff {gap word rest : Bytes} (hgap : IsGap gap) (hword : IsWord word) :
    gap ≠ [] ↔ ∀ c ∈ (gap ++ (word ++ rest)).head?, isSpace c = true := by
  cases gap with
  | nil =>
    obtain ⟨c, tail, rfl⟩ := List.exists_cons_of_ne_nil hword.1
    have hc := hword.2 c List.mem_cons_self
    simp [hc]
  | cons c gap =>
    have hc := hgap c List.mem_cons_self
    simp [hc]

/-- A request line: three words in front of which there is white space, and anything behind them. -/
structure StartLine where
  before : Bytes
  method : Bytes
  gap : Bytes
  target : Bytes
  gap' : Bytes
  version : Bytes
  after : Bytes
  before_isGap : IsGap before
  method_isWord : IsWord method
  gap_isGap : IsGap gap
  gap_ne_nil : gap ≠ []
  target_isWord : IsWord target
  target_slash : target.head? = some slash
  gap'_isGap : IsGap gap'
  gap'_ne_nil : gap' ≠ []
  version_isWord : IsWord version
  version_http : lit "HTTP/" <+: version
  after_head : ∀ c ∈ after.head?, isSpace c = true

/-! ## Queries -/

/-- The pairs of a query; a piece between two separators may be empty or lack the equals sign. -/
def queryEntry (piece : Bytes) : Option (Bytes × Bytes) :=
  if piece = [] then none
  else some (piece.takeWhile (· ≠ 61), (piece.dropWhile (· ≠ 61)).tail)

def queryEntries (query : Bytes) : List (Bytes × Bytes) := (query.splitOn 38).filterMap queryEntry

theorem takeWhile_ne_append {delimiter : Byte} {left : Bytes} (h : delimiter ∉ left) (right : Bytes) :
    (left ++ delimiter :: right).takeWhile (· ≠ delimiter) = left ∧
      (left ++ delimiter :: right).dropWhile (· ≠ delimiter) = delimiter :: right := by
  have hleft : ∀ c ∈ left, decide (c ≠ delimiter) = true :=
    fun c hc ↦ decide_eq_true fun heq ↦ h (heq ▸ hc)
  rw [List.takeWhile_append_of_pos hleft, List.dropWhile_append_of_pos hleft]
  simp

theorem takeWhile_ne_of_notMem {delimiter : Byte} {text : Bytes} (h : delimiter ∉ text) :
    text.takeWhile (· ≠ delimiter) = text ∧ text.dropWhile (· ≠ delimiter) = [] := by
  have htext : ∀ c ∈ text, decide (c ≠ delimiter) = true :=
    fun c hc ↦ decide_eq_true fun heq ↦ h (heq ▸ hc)
  exact ⟨List.takeWhile_eq_self_iff.mpr htext, List.dropWhile_eq_nil_iff.mpr htext⟩

theorem addQueryPair_eq (piece : Bytes) (queryParams : StringMap) :
    addQueryPair piece queryParams = insertAll (queryEntry piece).toList queryParams := by
  unfold addQueryPair queryEntry
  by_cases hmem : (61 : Byte) ∈ piece
  · obtain ⟨left, right, rfl, hleft⟩ := List.eq_append_cons_of_mem hmem
    obtain ⟨htake, hdrop⟩ := takeWhile_ne_append hleft right
    have hfind : find [61] (left ++ 61 :: right) = some left.length :=
      find_append_of_head_notMem hleft
    rw [hfind, htake, hdrop]
    simp [insertAll]
  · obtain ⟨htake, hdrop⟩ := takeWhile_ne_of_notMem hmem
    rw [find_singleton_eq_none_iff.mpr hmem, htake, hdrop]
    by_cases hpiece : piece = []
    · simp [hpiece, insertAll]
    · simp [hpiece, insertAll]

theorem insertAll_append (entries entries' : List (Bytes × Bytes)) (map : StringMap) :
    insertAll (entries ++ entries') map = insertAll entries' (insertAll entries map) :=
  List.foldl_append

/-- The query loop inserts the pairs of the pieces in their order. -/
theorem parseQueryParams_eq (query : Bytes) (queryParams : StringMap) :
    parseQueryParams query queryParams = insertAll (queryEntries query) queryParams := by
  unfold parseQueryParams
  induction hlen : query.length using Nat.strong_induction_on generalizing query queryParams with
  | _ n ih =>
    by_cases hmem : (38 : Byte) ∈ query
    · obtain ⟨left, right, rfl, hleft⟩ := List.eq_append_cons_of_mem hmem
      have hentries : queryEntries (left ++ 38 :: right) =
          (queryEntry left).toList ++ queryEntries right := by
        rw [queryEntries, List.splitOn_append_cons_self_of_not_mem hleft, List.filterMap_cons]
        cases queryEntry left <;> rfl
      have hshort : right.length < n := by
        rw [← hlen, List.length_append, List.length_cons]
        omega
      rw [queryLoop_next (getline_append hleft), ih _ hshort right _ rfl, addQueryPair_eq, hentries,
        insertAll_append]
    · have hentries : queryEntries query = (queryEntry query).toList := by
        rw [queryEntries, List.splitOn_eq_singleton hmem, List.filterMap_cons]
        cases queryEntry query <;> rfl
      rw [hentries, ← addQueryPair_eq]
      by_cases hnil : query = []
      · rw [hnil, queryLoop_nil]
        rfl
      · rw [queryLoop_next (getline_last hmem hnil), queryLoop_nil]

namespace StartLine

variable (start : StartLine)

def toBytes : Bytes :=
  start.before ++ (start.method ++ (start.gap ++ (start.target ++ (start.gap' ++
    (start.version ++ start.after)))))

/-- The request that the parser makes of the line. -/
def request : HttpRequest :=
  { clear with
    method := start.method
    path := start.target.takeWhile (· ≠ 63)
    version := start.version
    queryParams := insertAll (queryEntries (start.target.dropWhile (· ≠ 63)).tail) ∅ }

end StartLine

/-- What the parser makes of the three words of a request line. -/
theorem parseRequestLine_of_words {line rest rest' rest'' method target version : Bytes}
    (hmethod : extractWord line = some (method, rest))
    (htarget : extractWord rest = some (target, rest'))
    (hversion : extractWord rest' = some (version, rest'')) :
    parseRequestLine line clear =
      if target.head? = some slash ∧ lit "HTTP/" <+: version then
        some { clear with
          method := method
          path := target.takeWhile (· ≠ 63)
          version := version
          queryParams := insertAll (queryEntries (target.dropWhile (· ≠ 63)).tail) ∅ }
      else none := by
  have hwords : ¬ (method = [] ∨ target = [] ∨ version = []) := by
    have h := (extractWord_eq_some_iff.mp hmethod).1.1
    have h' := (extractWord_eq_some_iff.mp htarget).1.1
    have h'' := (extractWord_eq_some_iff.mp hversion).1.1
    simp [h, h', h'']
  have hpre : version.take 5 = lit "HTTP/" ↔ lit "HTTP/" <+: version := by
    rw [List.prefix_iff_eq_take]
    exact eq_comm
  unfold parseRequestLine
  simp only [hmethod, htarget, hversion, Option.bind_eq_bind, Option.bind_some, if_neg hwords]
  by_cases hslash : target.head? = some slash
  · by_cases hhttp : lit "HTTP/" <+: version
    · rw [if_neg (not_not.mpr hslash), if_neg (not_not.mpr (hpre.mpr hhttp)),
        if_pos ⟨hslash, hhttp⟩]
      by_cases hmem : (63 : Byte) ∈ target
      · obtain ⟨path, query, rfl, hpath⟩ := List.eq_append_cons_of_mem hmem
        obtain ⟨htake, hdrop⟩ := takeWhile_ne_append hpath query
        have hfind : find [63] (path ++ 63 :: query) = some path.length :=
          find_append_of_head_notMem hpath
        rw [hfind, htake, hdrop]
        simp [parseQueryParams_eq, clear]
      · obtain ⟨htake, hdrop⟩ := takeWhile_ne_of_notMem hmem
        rw [find_singleton_eq_none_iff.mpr hmem, htake, hdrop]
        rfl
    · rw [if_neg (not_not.mpr hslash), if_pos (mt hpre.mp hhttp), if_neg (fun h ↦ hhttp h.2)]
  · rw [if_pos hslash, if_neg (fun h ↦ hslash h.1)]

/-- The accepted request lines are the written ones. -/
theorem parseRequestLine_eq_some_iff {line : Bytes} {request : HttpRequest} :
    parseRequestLine line clear = some request ↔
      ∃ start : StartLine, line = start.toBytes ∧ request = start.request := by
  constructor
  · intro h
    have hwords := h
    unfold parseRequestLine at hwords
    simp only [Option.bind_eq_bind, Option.bind_eq_some_iff] at hwords
    obtain ⟨⟨method, rest⟩, hmethod, ⟨target, rest'⟩, htarget, ⟨version, rest''⟩, hversion, -⟩ :=
      hwords
    rw [parseRequestLine_of_words hmethod htarget hversion] at h
    obtain ⟨hmethodWord, hrest, before, hbefore, rfl⟩ := extractWord_eq_some_iff.mp hmethod
    obtain ⟨htargetWord, hrest', gap, hgap, rfl⟩ := extractWord_eq_some_iff.mp htarget
    obtain ⟨hversionWord, hrest'', gap', hgap', rfl⟩ := extractWord_eq_some_iff.mp hversion
    obtain ⟨⟨hslash, hhttp⟩, hrequest⟩ := Option.ite_none_right_eq_some.mp h
    exact ⟨{
      before, method, gap, target, gap', version
      after := rest''
      before_isGap := hbefore
      method_isWord := hmethodWord
      gap_isGap := hgap
      gap_ne_nil := (gap_ne_nil_iff hgap htargetWord).mpr hrest
      target_isWord := htargetWord
      target_slash := hslash
      gap'_isGap := hgap'
      gap'_ne_nil := (gap_ne_nil_iff hgap' hversionWord).mpr hrest'
      version_isWord := hversionWord
      version_http := hhttp
      after_head := hrest'' }, rfl, (Option.some.inj hrequest).symm⟩
  · rintro ⟨start, rfl, rfl⟩
    have hversion : extractWord (start.gap' ++ (start.version ++ start.after)) =
        some (start.version, start.after) :=
      extractWord_eq_some_iff.mpr
        ⟨start.version_isWord, start.after_head, start.gap', start.gap'_isGap, rfl⟩
    have htarget : extractWord (start.gap ++ (start.target ++
        (start.gap' ++ (start.version ++ start.after)))) =
          some (start.target, start.gap' ++ (start.version ++ start.after)) :=
      extractWord_eq_some_iff.mpr ⟨start.target_isWord,
        (gap_ne_nil_iff start.gap'_isGap start.version_isWord).mp start.gap'_ne_nil,
        start.gap, start.gap_isGap, rfl⟩
    have hmethod : extractWord start.toBytes = some (start.method, start.gap ++ (start.target ++
        (start.gap' ++ (start.version ++ start.after)))) :=
      extractWord_eq_some_iff.mpr ⟨start.method_isWord,
        (gap_ne_nil_iff start.gap_isGap start.target_isWord).mp start.gap_ne_nil,
        start.before, start.before_isGap, rfl⟩
    rw [parseRequestLine_of_words hmethod htarget hversion,
      if_pos ⟨start.target_slash, start.version_http⟩]
    rfl

/-! ## Header lines -/

/-- A header line: a name, a colon, and a value with blanks around it. -/
structure FieldLine where
  name : Bytes
  left : Bytes
  value : Bytes
  right : Bytes
  name_ne_nil : name ≠ []
  colon_notMem_name : colon ∉ name
  left_blank : ∀ c ∈ left, isBlank c = true
  right_blank : ∀ c ∈ right, isBlank c = true
  value_head : ∀ c ∈ value.head?, isBlank c = false
  value_getLast : ∀ c ∈ value.getLast?, isBlank c = false

namespace FieldLine

variable (line : FieldLine)

def toBytes : Bytes := line.name ++ colon :: (line.left ++ (line.value ++ line.right))

def field : Bytes × Bytes := (line.name, line.value)

end FieldLine

theorem trim_append_blank {value right : Bytes} (hvalue : ∀ c ∈ value.getLast?, isBlank c = false)
    (hhead : ∀ c ∈ value.head?, isBlank c = false) (hright : ∀ c ∈ right, isBlank c = true) :
    trim (value ++ right) = value := by
  induction right using List.reverseRecOn with
  | nil => rw [List.append_nil, trim_of_no_blank_ends hhead hvalue]
  | append_singleton right c ih =>
    obtain ⟨hright, hc⟩ := List.forall_mem_append.mp hright
    have hblank := hc c (List.mem_singleton_self c)
    cases value with
    | nil =>
      have hall : ([] ++ (right ++ [c])).dropWhile isBlank = [] :=
        List.dropWhile_eq_nil_iff.mpr (by simpa [or_imp, forall_and] using ⟨hright, hblank⟩)
      rw [trim, hall]
      rfl
    | cons a value =>
      have ha : ¬ isBlank a = true := by simp [hhead a rfl]
      have hdrop := ih hright
      rw [trim, List.cons_append, List.dropWhile_cons_of_neg ha] at hdrop
      rw [trim, List.cons_append, List.dropWhile_cons_of_neg ha, ← List.append_assoc,
        ← List.cons_append, List.rdropWhile_concat_pos _ _ _ hblank, hdrop]

/-- A trimmed text is what is left between blanks on both sides. -/
theorem trim_eq_iff {text value : Bytes} :
    trim text = value ↔ (∀ c ∈ value.head?, isBlank c = false) ∧
      (∀ c ∈ value.getLast?, isBlank c = false) ∧
      ∃ left right, (∀ c ∈ left, isBlank c = true) ∧ (∀ c ∈ right, isBlank c = true) ∧
        text = left ++ (value ++ right) := by
  constructor
  · rintro rfl
    refine ⟨?_, ?_, text.takeWhile isBlank, (text.dropWhile isBlank).rtakeWhile isBlank,
      fun c ↦ List.mem_takeWhile_imp, fun c ↦ List.mem_rtakeWhile_imp, ?_⟩
    · intro c hc
      have hstop := List.head?_dropWhile_not isBlank text
      obtain ⟨right, hright⟩ := List.rdropWhile_prefix isBlank (text.dropWhile isBlank)
      obtain ⟨tail, htail⟩ := List.head?_eq_some_iff.mp hc
      rw [trim] at htail
      rw [← hright, htail] at hstop
      simpa using hstop
    · intro c hc
      have hne : trim text ≠ [] := by
        intro hnil
        rw [hnil] at hc
        exact absurd hc (by simp)
      have hlast := List.rdropWhile_last_not isBlank _ hne
      rw [List.getLast?_eq_some_getLast hne] at hc
      obtain rfl := Option.mem_some_iff.mp hc
      exact Bool.eq_false_iff.mpr hlast
    · rw [trim, List.rdropWhile_append_rtakeWhile, List.takeWhile_append_dropWhile]
  · rintro ⟨hhead, hlast, left, right, hleft, hright, rfl⟩
    induction left with
    | nil => exact trim_append_blank hlast hhead hright
    | cons c left ih =>
      obtain ⟨hc, htail⟩ := List.forall_mem_cons.mp hleft
      rw [List.cons_append, trim_cons_blank hc]
      exact ih htail

theorem headerField_colon {name : Bytes} (h : colon ∉ name) (text : Bytes) :
    headerField (name ++ colon :: text) = if name = [] then none else some (name, trim text) := by
  have hfind : find [colon] (name ++ colon :: text) = some name.length :=
    find_append_of_head_notMem h
  simp [headerField, hfind]

/-- The accepted header lines are the written ones. -/
theorem headerField_eq_some_iff {line : Bytes} {field : Bytes × Bytes} :
    headerField line = some field ↔
      ∃ fieldLine : FieldLine, line = fieldLine.toBytes ∧ field = fieldLine.field := by
  constructor
  · intro h
    have hmem : colon ∈ line := by
      by_contra hnot
      rw [headerField, find_singleton_eq_none_iff.mpr hnot] at h
      exact absurd h (by simp)
    obtain ⟨name, text, rfl, hname⟩ := List.eq_append_cons_of_mem hmem
    rw [headerField_colon hname] at h
    obtain ⟨hne, hfield⟩ := Option.ite_none_left_eq_some.mp h
    obtain ⟨hhead, hlast, left, right, hleft, hright, htext⟩ :=
      trim_eq_iff.mp (rfl : trim text = trim text)
    exact ⟨{
      name, left, right
      value := trim text
      name_ne_nil := hne
      colon_notMem_name := hname
      left_blank := hleft
      right_blank := hright
      value_head := hhead
      value_getLast := hlast }, congrArg (name ++ colon :: ·) htext, (Option.some.inj hfield).symm⟩
  · rintro ⟨fieldLine, rfl, rfl⟩
    rw [FieldLine.toBytes, headerField_colon fieldLine.colon_notMem_name,
      if_neg fieldLine.name_ne_nil,
      trim_eq_iff.mpr ⟨fieldLine.value_head, fieldLine.value_getLast, fieldLine.left,
        fieldLine.right, fieldLine.left_blank, fieldLine.right_blank, rfl⟩]
    rfl

theorem fields_of_mapM {lines : List Bytes} {fields : List (Bytes × Bytes)}
    (h : lines.mapM headerField = some fields) :
    ∃ fieldLines : List FieldLine, lines = fieldLines.map FieldLine.toBytes ∧
      fields = fieldLines.map FieldLine.field := by
  induction lines generalizing fields with
  | nil => exact ⟨[], rfl, (Option.some.inj h).symm⟩
  | cons line lines ih =>
    rw [List.mapM_cons] at h
    simp only [Option.bind_eq_bind, Option.bind_eq_some_iff] at h
    obtain ⟨field, hfield, rest, hrest, hfields⟩ := h
    obtain ⟨fieldLine, rfl, rfl⟩ := headerField_eq_some_iff.mp hfield
    obtain ⟨fieldLines, rfl, rfl⟩ := ih hrest
    exact ⟨fieldLine :: fieldLines, rfl, (Option.some.inj hfields).symm⟩

theorem mapM_headerField_toBytes (fieldLines : List FieldLine) :
    (fieldLines.map FieldLine.toBytes).mapM headerField =
      some (fieldLines.map FieldLine.field) := by
  induction fieldLines with
  | nil => rfl
  | cons fieldLine fieldLines ih =>
    rw [List.map_cons, List.mapM_cons, ih, headerField_eq_some_iff.mpr ⟨fieldLine, rfl, rfl⟩]
    rfl

theorem mapM_headerField_eq_none_iff {lines : List Bytes} :
    lines.mapM headerField = none ↔ ∃ line ∈ lines, ∀ field : FieldLine, line ≠ field.toBytes := by
  have hnone : ∀ line, headerField line = none ↔ ∀ field : FieldLine, line ≠ field.toBytes := by
    intro line
    rw [Option.eq_none_iff_forall_ne_some]
    constructor
    · intro h field hline
      exact h field.field (headerField_eq_some_iff.mpr ⟨field, hline, rfl⟩)
    · intro h field hfield
      obtain ⟨fieldLine, hline, -⟩ := headerField_eq_some_iff.mp hfield
      exact h fieldLine hline
  induction lines with
  | nil => simp
  | cons line lines ih =>
    rw [List.mapM_cons, List.exists_mem_cons_iff, ← hnone line]
    refine Iff.trans ?_ (or_congr_right ih)
    cases headerField line with
    | none => simp
    | some field => cases lines.mapM headerField <;> simp

/-! ## Request heads -/

/-- The text of a request in front of its body: lines without a line end in them. -/
structure HeadText where
  start : StartLine
  fieldLines : List FieldLine
  no_crlf_start : ¬ crlf <:+: start.toBytes
  no_crlf_fieldLines : ∀ line ∈ fieldLines, ¬ crlf <:+: line.toBytes

theorem find_crlf_eq_none_iff {text : Bytes} : find crlf text = none ↔ ¬ crlf <:+: text := by
  rw [← find_isSome_iff, Option.not_isSome_iff_eq_none]

namespace HeadText

variable (text : HeadText)

def head : RequestHead where
  startLine := text.start.toBytes
  fieldLines := text.fieldLines.map FieldLine.toBytes
  find_startLine := find_crlf_eq_none_iff.mpr text.no_crlf_start
  find_fieldLines := List.forall_mem_map.mpr fun line hline ↦
    find_crlf_eq_none_iff.mpr (text.no_crlf_fieldLines line hline)
  fieldLines_ne_nil := List.forall_mem_map.mpr fun _ _ ↦ by simp [FieldLine.toBytes]

def toBytes : Bytes :=
  writeLines (text.start.toBytes :: text.fieldLines.map FieldLine.toBytes) ++ crlf

def fields : List (Bytes × Bytes) := text.fieldLines.map FieldLine.field

/-- The value that counts is the one of the last line with the name. -/
def header (name : Bytes) : Bytes := (valuesOf name text.fields).getLast?.getD []

/-- The body length that the header lines announce, which is none where they announce nothing. -/
def AnnouncesLength (length : ℕ) : Prop :=
  (text.header (lit "Content-Length") = [] ∧ length = 0) ∨
    (text.header (lit "Content-Length") ≠ [] ∧
      (∀ c ∈ text.header (lit "Content-Length"), isDigit c = true) ∧
      decimalValue (text.header (lit "Content-Length")) = length ∧ length ≤ maxBody)

def IsIdentityEncoded : Prop :=
  text.header (lit "Transfer-Encoding") = [] ∨
    text.header (lit "Transfer-Encoding") = lit "identity"

def KeepsAlive : Prop :=
  if text.start.version = lit "HTTP/1.1" then text.header (lit "Connection") ≠ lit "close"
  else text.header (lit "Connection") = lit "keep-alive"

instance : Decidable text.KeepsAlive := by
  unfold KeepsAlive
  infer_instance

/-- The request with a body that the parser returns. -/
def request (body : Bytes) : HttpRequest :=
  { text.start.request with
    headers := insertAll text.fields ∅
    body := body
    keepAlive := text.KeepsAlive }

theorem toBytes_eq : text.toBytes = text.head.toBytes := rfl

theorem readHead_head (hshort : text.start.toBytes.length ≤ maxRequestLine) :
    readHead text.head = .ok (text.start.request.withFields text.fields) := by
  have hstart : parseRequestLine text.head.startLine clear = some text.start.request :=
    parseRequestLine_eq_some_iff.mpr ⟨text.start, rfl, rfl⟩
  have hfields : text.head.fieldLines.mapM headerField = some text.fields :=
    mapM_headerField_toBytes text.fieldLines
  have hlength : ¬ maxRequestLine < text.head.startLine.length := Nat.not_lt_of_le hshort
  unfold readHead
  rw [if_neg hlength, hstart, hfields]
  rfl

theorem getHeader_request (name : Bytes) :
    (text.start.request.withFields text.fields).getHeader name = text.header name :=
  getHeader_withFields ..

theorem decideKeepAlive_request :
    decideKeepAlive (text.start.request.withFields text.fields) = decide text.KeepsAlive := by
  have hversion : (text.start.request.withFields text.fields).version = text.start.version := rfl
  unfold decideKeepAlive KeepsAlive
  rw [getHeader_request, hversion]
  by_cases h : text.start.version = lit "HTTP/1.1" <;> simp [h]

/-- What is read behind a head depends on the length that its lines announce. -/
theorem parse_of_announcedLength {length : ℕ} (hshort : text.start.toBytes.length ≤ maxRequestLine)
    (h : announcedLength (text.start.request.withFields text.fields) = .ok length) (rest : Bytes) :
    parse (text.toBytes ++ rest) =
      if rest.length < length then .needMore
      else .ok (text.request (rest.take length)) (text.toBytes.length + length) := by
  rw [toBytes_eq, parse_toBytes, text.readHead_head hshort]
  simp only [answerTo, h, decideKeepAlive_request]
  rfl

theorem parse_of_announcedLength_error {code : ℕ}
    (hshort : text.start.toBytes.length ≤ maxRequestLine)
    (h : announcedLength (text.start.request.withFields text.fields) = .error code) (rest : Bytes) :
    parse (text.toBytes ++ rest) = .error code := by
  rw [toBytes_eq, parse_toBytes, text.readHead_head hshort]
  simp only [answerTo, h]

theorem bodyLength_of_announces {length : ℕ} (h : text.AnnouncesLength length) :
    bodyLength (text.header (lit "Content-Length")) = .ok length := by
  rcases h with ⟨hnil, rfl⟩ | ⟨-, hdigits, rfl, hle⟩
  · rw [hnil]
    rfl
  · exact bodyLength_of_le (List.all_eq_true.mpr hdigits) hle

theorem announcedLength_of_announces {length : ℕ} (h : text.AnnouncesLength length)
    (hidentity : text.IsIdentityEncoded) :
    announcedLength (text.start.request.withFields text.fields) = .ok length := by
  rw [announcedLength_ok_iff, getHeader_request, getHeader_request]
  exact ⟨text.bodyLength_of_announces h, hidentity⟩

theorem announcedLength_of_not_identity {length : ℕ} (h : text.AnnouncesLength length)
    (hencoding : ¬ text.IsIdentityEncoded) :
    announcedLength (text.start.request.withFields text.fields) = .error 501 := by
  unfold announcedLength
  rw [getHeader_request, getHeader_request, text.bodyLength_of_announces h]
  exact if_pos (not_or.mp hencoding)

theorem announcedLength_of_bodyLength_error {code : ℕ}
    (h : bodyLength (text.header (lit "Content-Length")) = .error code) :
    announcedLength (text.start.request.withFields text.fields) = .error code := by
  unfold announcedLength
  rw [getHeader_request, h]

end HeadText

/-! ## The language -/

/-- What a buffer is read as: a request with its size, the beginning of one, or none, and why. -/
inductive Reads : Bytes → ParseOutcome → Prop
  | message (text : HeadText) (body rest : Bytes)
      (hshort : text.start.toBytes.length ≤ maxRequestLine)
      (hlength : text.AnnouncesLength body.length) (hidentity : text.IsIdentityEncoded) :
      Reads (text.toBytes ++ (body ++ rest))
        (.ok (text.request body) (text.toBytes.length + body.length))
  | headUnfinished (part : Bytes) (hblank : ¬ blankLine <:+: part)
      (hshort : part.length ≤ maxHeaderTotal) : Reads part .needMore
  | bodyUnfinished (text : HeadText) (part : Bytes) {length : ℕ}
      (hshort : text.start.toBytes.length ≤ maxRequestLine)
      (hlength : text.AnnouncesLength length) (hidentity : text.IsIdentityEncoded)
      (hpart : part.length < length) : Reads (text.toBytes ++ part) .needMore
  | headTooLong (part : Bytes) (hblank : ¬ blankLine <:+: part)
      (hlong : maxHeaderTotal < part.length) : Reads part (.error 431)
  | startTooLong (head : RequestHead) (rest : Bytes)
      (hlong : maxRequestLine < head.startLine.length) : Reads (head.toBytes ++ rest) (.error 431)
  | notAStart (head : RequestHead) (rest : Bytes) (hshort : head.startLine.length ≤ maxRequestLine)
      (hstart : ∀ start : StartLine, head.startLine ≠ start.toBytes) :
      Reads (head.toBytes ++ rest) (.error 400)
  | notAField (head : RequestHead) (rest : Bytes) (hshort : head.startLine.length ≤ maxRequestLine)
      (hfield : ∃ line ∈ head.fieldLines, ∀ field : FieldLine, line ≠ field.toBytes) :
      Reads (head.toBytes ++ rest) (.error 400)
  | notALength (text : HeadText) (rest : Bytes)
      (hshort : text.start.toBytes.length ≤ maxRequestLine)
      (hlength : (∃ c ∈ text.header (lit "Content-Length"), isDigit c = false) ∨
        2 ^ 64 ≤ decimalValue (text.header (lit "Content-Length"))) :
      Reads (text.toBytes ++ rest) (.error 400)
  | bodyTooLarge (text : HeadText) (rest : Bytes)
      (hshort : text.start.toBytes.length ≤ maxRequestLine)
      (hdigits : ∀ c ∈ text.header (lit "Content-Length"), isDigit c = true)
      (hlarge : maxBody < decimalValue (text.header (lit "Content-Length")))
      (hword : decimalValue (text.header (lit "Content-Length")) < 2 ^ 64) :
      Reads (text.toBytes ++ rest) (.error 413)
  | otherEncoding (text : HeadText) (rest : Bytes) {length : ℕ}
      (hshort : text.start.toBytes.length ≤ maxRequestLine)
      (hlength : text.AnnouncesLength length) (hencoding : ¬ text.IsIdentityEncoded) :
      Reads (text.toBytes ++ rest) (.error 501)

theorem bodyLength_of_two_pow_le {value : Bytes} (h : 2 ^ 64 ≤ decimalValue value) :
    bodyLength value = .error 400 := by
  have hne : value ≠ [] := by
    rintro rfl
    exact absurd h (by decide)
  unfold bodyLength
  rw [if_neg hne]
  split
  · rfl
  · rfl

theorem bodyLength_of_maxBody_lt {value : Bytes} (hdigits : ∀ c ∈ value, isDigit c = true)
    (hlarge : maxBody < decimalValue value) (hword : decimalValue value < 2 ^ 64) :
    bodyLength value = .error 413 := by
  have hne : value ≠ [] := by
    rintro rfl
    exact absurd hlarge (by decide)
  unfold bodyLength
  rw [if_neg hne, any_not_isDigit_eq_false (List.all_eq_true.mpr hdigits),
    if_neg Bool.false_ne_true, if_neg (Nat.not_le_of_lt hword), if_pos hlarge]

theorem parse_of_readHead_error {head : RequestHead} {code : ℕ} (h : readHead head = .error code)
    (rest : Bytes) : parse (head.toBytes ++ rest) = .error code := by
  rw [parse_toBytes, h]

/-- The parser answers what the buffer is read as. -/
theorem Reads.parse_eq {raw : Bytes} {outcome : ParseOutcome} (h : Reads raw outcome) :
    parse raw = outcome := by
  cases h with
  | message text body rest hshort hlength hidentity =>
    rw [text.parse_of_announcedLength hshort
      (text.announcedLength_of_announces hlength hidentity), if_neg (by simp), List.take_left]
  | headUnfinished part hblank hshort =>
    have hfind := (Option.not_isSome_iff_eq_none.mp fun h ↦ hblank (find_isSome_iff.mp h))
    rw [parse_eq_of_no_blankLine hfind, if_neg (Nat.not_lt_of_le hshort)]
  | bodyUnfinished text part hshort hlength hidentity hpart =>
    rw [text.parse_of_announcedLength hshort
      (text.announcedLength_of_announces hlength hidentity), if_pos hpart]
  | headTooLong part hblank hlong =>
    have hfind := (Option.not_isSome_iff_eq_none.mp fun h ↦ hblank (find_isSome_iff.mp h))
    rw [parse_eq_of_no_blankLine hfind, if_pos hlong]
  | startTooLong head rest hlong => exact parse_of_readHead_error (if_pos hlong) rest
  | notAStart head rest hshort hstart =>
    have hnone : parseRequestLine head.startLine clear = none := by
      apply Option.eq_none_iff_forall_ne_some.mpr
      intro request hrequest
      obtain ⟨start, hline, -⟩ := parseRequestLine_eq_some_iff.mp hrequest
      exact hstart start hline
    apply parse_of_readHead_error
    unfold readHead
    rw [if_neg (Nat.not_lt_of_le hshort), hnone]
  | notAField head rest hshort hfield =>
    apply parse_of_readHead_error
    unfold readHead
    rw [if_neg (Nat.not_lt_of_le hshort), mapM_headerField_eq_none_iff.mpr hfield]
    cases parseRequestLine head.startLine clear <;> rfl
  | notALength text rest hshort hlength =>
    apply text.parse_of_announcedLength_error hshort
    apply text.announcedLength_of_bodyLength_error
    cases hlength with
    | inl hdigit => exact bodyLength_of_not_isDigit hdigit
    | inr hword => exact bodyLength_of_two_pow_le hword
  | bodyTooLarge text rest hshort hdigits hlarge hword =>
    apply text.parse_of_announcedLength_error hshort
    apply text.announcedLength_of_bodyLength_error
    exact bodyLength_of_maxBody_lt hdigits hlarge hword
  | otherEncoding text rest hshort hlength hencoding =>
    apply text.parse_of_announcedLength_error hshort
    exact text.announcedLength_of_not_identity hlength hencoding

/-- Every head that no line of which is refused is written as a head text. -/
theorem exists_headText {head : RequestHead}
    (hstart : ∃ start : StartLine, head.startLine = start.toBytes)
    (hfields : ∀ line ∈ head.fieldLines, ∃ field : FieldLine, line = field.toBytes) :
    ∃ text : HeadText, head.startLine = text.start.toBytes ∧ head.toBytes = text.toBytes := by
  obtain ⟨start, hline⟩ := hstart
  obtain ⟨fields, hmap⟩ := Option.ne_none_iff_exists'.mp
    (mt mapM_headerField_eq_none_iff.mp (by simpa using hfields))
  obtain ⟨fieldLines, hlines, -⟩ := fields_of_mapM hmap
  have hcrlf := hlines ▸ head.find_fieldLines
  have htext : head.toBytes = writeLines (start.toBytes :: fieldLines.map FieldLine.toBytes) ++ crlf := by
    rw [RequestHead.toBytes, hline, hlines]
  exact ⟨{
    start, fieldLines
    no_crlf_start := find_crlf_eq_none_iff.mp (hline ▸ head.find_startLine)
    no_crlf_fieldLines := fun line hmem ↦
      find_crlf_eq_none_iff.mp (List.forall_mem_map.mp hcrlf line hmem) }, hline, htext⟩

/-- Every buffer is read as something. -/
theorem exists_reads (raw : Bytes) : ∃ outcome, Reads raw outcome := by
  cases hend : find blankLine raw with
  | none =>
    have hblank : ¬ blankLine <:+: raw := by
      rw [← find_isSome_iff, hend]
      simp
    by_cases hlong : maxHeaderTotal < raw.length
    · exact ⟨_, .headTooLong raw hblank hlong⟩
    · exact ⟨_, .headUnfinished raw hblank (Nat.le_of_not_lt hlong)⟩
  | some headerEnd =>
    obtain ⟨head, rest, rfl⟩ := RequestHead.exists_of_blankLine hend
    by_cases hlong : maxRequestLine < head.startLine.length
    · exact ⟨_, .startTooLong head rest hlong⟩
    have hshort := Nat.le_of_not_lt hlong
    by_cases hstart : ∃ start : StartLine, head.startLine = start.toBytes
    swap
    · exact ⟨_, .notAStart head rest hshort (not_exists.mp hstart)⟩
    by_cases hfields : ∀ line ∈ head.fieldLines, ∃ field : FieldLine, line = field.toBytes
    swap
    · exact ⟨_, .notAField head rest hshort (by simpa using hfields)⟩
    obtain ⟨text, hline, htext⟩ := exists_headText hstart hfields
    rw [hline] at hshort
    rw [htext]
    by_cases hdigits : ∀ c ∈ text.header (lit "Content-Length"), isDigit c = true
    swap
    · exact ⟨_, .notALength text rest hshort (.inl (by simpa using hdigits))⟩
    by_cases hword : decimalValue (text.header (lit "Content-Length")) < 2 ^ 64
    swap
    · exact ⟨_, .notALength text rest hshort (.inr (Nat.le_of_not_lt hword))⟩
    by_cases hlarge : maxBody < decimalValue (text.header (lit "Content-Length"))
    · exact ⟨_, .bodyTooLarge text rest hshort hdigits hlarge hword⟩
    obtain ⟨length, hlength⟩ : ∃ length, text.AnnouncesLength length := by
      by_cases hnil : text.header (lit "Content-Length") = []
      · exact ⟨0, .inl ⟨hnil, rfl⟩⟩
      · exact ⟨_, .inr ⟨hnil, hdigits, rfl, Nat.le_of_not_lt hlarge⟩⟩
    by_cases hidentity : text.IsIdentityEncoded
    swap
    · exact ⟨_, .otherEncoding text rest hshort hlength hidentity⟩
    by_cases hpart : rest.length < length
    · exact ⟨_, .bodyUnfinished text rest hshort hlength hidentity hpart⟩
    · have htake : (rest.take length).length = length :=
        List.length_take_of_le (Nat.le_of_not_lt hpart)
      have hmessage := Reads.message text (rest.take length) (rest.drop length) hshort
        (htake.symm ▸ hlength) hidentity
      rw [List.take_append_drop] at hmessage
      exact ⟨_, hmessage⟩

/-- The parser decides the language: it answers with a request exactly on the buffers that begin with a
written one, asks for more exactly on the beginnings, and gives each code for its own reasons. -/
theorem parse_eq_iff_reads (raw : Bytes) (outcome : ParseOutcome) :
    parse raw = outcome ↔ Reads raw outcome := by
  constructor
  · rintro rfl
    obtain ⟨outcome, houtcome⟩ := exists_reads raw
    rw [houtcome.parse_eq]
    exact houtcome
  · exact Reads.parse_eq

end HttpRequest

end WebServer
