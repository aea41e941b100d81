import WebServer.Http.RequestRoundTrip
import WebServer.Service.KVRouting
import WebServer.Service.Routing
import WebServer.Service.StaticPaths

/-!
# Percent-encoded names of static files

A client writes the name of a file with some of its bytes as percent escapes, in either case of the
hexadecimal digits: at least "%", "?" and white space, and whichever others it likes, slashes among
them. The request line is cut at white space and at "?", the path at its slashes, and the rest behind
"static" is joined again before it is decoded; none of this changes the encoded name, because it has
no empty component. Decoding gives the name back.
-/

namespace WebServer

open Bytes Search

/-! ## Percent encodings -/

/-- The bytes that would not survive unescaped. -/
def MustEscape (c : Byte) : Prop := c = 37 ∨ c = 63 ∨ isSpace c

instance (c : Byte) : Decidable (MustEscape c) := inferInstanceAs (Decidable (_ ∨ _))

/-- A hexadecimal digit in upper or lower case. -/
def hexDigit (upper : Bool) (d : ℕ) : Byte :=
  UInt8.ofNat (if d < 10 then 48 + d else if upper then 55 + d else 87 + d)

/-- `Escapes text encoding`: a percent encoding of a text, byte by byte. -/
inductive Escapes : Bytes → Bytes → Prop
  | nil : Escapes [] []
  | plain {text encoding : Bytes} (c : Byte) (hplain : ¬ MustEscape c) :
    Escapes text encoding → Escapes (c :: text) (c :: encoding)
  | escape {text encoding : Bytes} (c : Byte) (upperHigh upperLow : Bool) :
    Escapes text encoding → Escapes (c :: text)
      (37 :: hexDigit upperHigh (c.toNat / 16) :: hexDigit upperLow (c.toNat % 16) :: encoding)

theorem hexVal_hexDigit (upper : Bool) {d : ℕ} (hd : d < 16) :
    hexVal (hexDigit upper d) = some d := by
  have h : ∀ upper : Bool, ∀ d < 16, hexVal (hexDigit upper d) = some d := by decide
  exact h upper d hd

/-- A digit is neither white space nor a question mark nor a slash. -/
theorem hexDigit_plain (upper : Bool) {d : ℕ} (hd : d < 16) :
    isSpace (hexDigit upper d) = false ∧ hexDigit upper d ≠ 63 ∧ hexDigit upper d ≠ slash := by
  have h : ∀ upper : Bool, ∀ d < 16, isSpace (hexDigit upper d) = false ∧
      hexDigit upper d ≠ 63 ∧ hexDigit upper d ≠ slash := by decide
  exact h upper d hd

theorem high_lt (c : Byte) : c.toNat / 16 < 16 := by
  have hlt := c.toNat_lt
  omega

theorem low_lt (c : Byte) : c.toNat % 16 < 16 := Nat.mod_lt _ (by decide)

/-! ## Decoding -/

theorem urlDecode_plain {c : Byte} (h : c ≠ 37) (rest : Bytes) :
    urlDecode (c :: rest) = c :: urlDecode rest := by
  match rest with
  | [] => rfl
  | [d] => rfl
  | d :: e :: rest => rw [urlDecode, if_neg h]

theorem urlDecode_escape (c : Byte) (upperHigh upperLow : Bool) (rest : Bytes) :
    urlDecode (37 :: hexDigit upperHigh (c.toNat / 16) :: hexDigit upperLow (c.toNat % 16) :: rest) =
      c :: urlDecode rest := by
  have hvalue : 16 * (c.toNat / 16) + c.toNat % 16 = c.toNat := Nat.div_add_mod c.toNat 16
  rw [urlDecode, if_pos rfl, hexVal_hexDigit upperHigh (high_lt c),
    hexVal_hexDigit upperLow (low_lt c)]
  dsimp only
  rw [hvalue, UInt8.ofNat_toNat]

/-- Decoding undoes every percent encoding. -/
theorem Escapes.urlDecode {text encoding : Bytes} (h : Escapes text encoding) :
    urlDecode encoding = text := by
  induction h with
  | nil => rfl
  | plain c hplain _ ih => rw [urlDecode_plain fun hc ↦ hplain (.inl hc), ih]
  | escape c upperHigh upperLow _ ih => rw [urlDecode_escape, ih]

/-- An encoding can stand in a request line and is not cut at a question mark. -/
theorem Escapes.notMem {text encoding : Bytes} (h : Escapes text encoding) :
    ∀ c ∈ encoding, isSpace c = false ∧ c ≠ 63 := by
  induction h with
  | nil => simp
  | plain c hplain _ ih =>
    obtain ⟨-, hplain⟩ := not_or.mp hplain
    obtain ⟨hquestion, hspace⟩ := not_or.mp hplain
    exact List.forall_mem_cons.mpr ⟨⟨by simpa using hspace, hquestion⟩, ih⟩
  | escape c upperHigh upperLow _ ih =>
    obtain ⟨hhigh, hhigh', -⟩ := hexDigit_plain upperHigh (high_lt c)
    obtain ⟨hlow, hlow', -⟩ := hexDigit_plain upperLow (low_lt c)
    exact List.forall_mem_cons.mpr ⟨by decide, List.forall_mem_cons.mpr ⟨⟨hhigh, hhigh'⟩,
      List.forall_mem_cons.mpr ⟨⟨hlow, hlow'⟩, ih⟩⟩⟩

/-! ## Components of an encoding -/

/-- No component is empty: no slash at the end, none behind another one, and none at the beginning if
the text itself is `behind` a slash. -/
def Tight (behind : Bool) : Bytes → Prop
  | [] => behind = false
  | c :: text => (behind → c ≠ slash) ∧ Tight (c = slash) text

theorem Tight.weaken {behind : Bool} {text : Bytes} (h : Tight behind text) : Tight false text := by
  cases text with
  | nil => rfl
  | cons c text => exact ⟨by simp, h.2⟩

/-- An encoding has no empty component if the text has none. -/
theorem Escapes.tight {text encoding : Bytes} (h : Escapes text encoding) {behind : Bool}
    (htight : Tight behind text) : Tight behind encoding := by
  induction h generalizing behind with
  | nil => exact htight
  | plain c hplain _ ih => exact ⟨htight.1, ih htight.2⟩
  | escape c upperHigh upperLow _ ih =>
    obtain ⟨-, -, hhigh⟩ := hexDigit_plain upperHigh (high_lt c)
    obtain ⟨-, -, hlow⟩ := hexDigit_plain upperLow (low_lt c)
    have hpercent : (37 : Byte) ≠ slash := by decide
    refine ⟨fun _ ↦ hpercent, fun _ ↦ hhigh, fun _ ↦ hlow, ?_⟩
    rw [decide_eq_false hlow]
    exact (ih htight.2).weaken

/-- A text is tight behind a slash just if none of its components is empty. -/
theorem tight_iff {text : Bytes} : (Tight true text ↔ ∀ part ∈ text.splitOn slash, part ≠ []) ∧
    (Tight false text ↔ ∀ part ∈ (text.splitOn slash).tail, part ≠ []) := by
  induction text with
  | nil => simp [Tight]
  | cons c text ih =>
    rw [List.splitOn_cons_eq_if_modifyHead]
    by_cases hc : c = slash
    · simp [Tight, hc, ih.1]
    · obtain ⟨first, parts, hparts⟩ := List.exists_cons_of_ne_nil (List.splitOn_ne_nil slash text)
      have htail := ih.2
      rw [hparts] at htail ⊢
      simpa [Tight, hc] using htail

theorem Tight.intercalate_components {text : Bytes} (h : Tight true text) :
    List.intercalate [slash] (components text) = text := by
  have hparts := tight_iff.1.mp h
  have hall : components text = text.splitOn slash :=
    List.filter_eq_self.mpr fun part hpart ↦ decide_eq_true (hparts part hpart)
  rw [hall, List.intercalate_splitOn]

theorem Tight.components_ne_nil {text : Bytes} (h : Tight true text) : components text ≠ [] := by
  intro hnil
  have hjoin := h.intercalate_components
  rw [hnil, List.intercalate_nil] at hjoin
  rw [← hjoin] at h
  exact absurd h (by simp [Tight])

/-! ## The request for a file -/

/-- The components of the name of a file below the static root. -/
structure FileName where
  parts : List Bytes
  parts_ne_nil : parts ≠ []
  part_ne_nil : ∀ part ∈ parts, part ≠ []
  slash_notMem : ∀ part ∈ parts, slash ∉ part
  nul_notMem : ∀ part ∈ parts, nul ∉ part
  part_ne_dotDot : ∀ part ∈ parts, part ≠ lit ".."

namespace FileName

/-- The components joined by slashes. -/
def rel (name : FileName) : Bytes := List.intercalate [slash] name.parts

variable (name : FileName)

theorem splitOn_rel : name.rel.splitOn slash = name.parts :=
  List.splitOn_intercalate slash name.slash_notMem name.parts_ne_nil

theorem guarded : Guarded name.rel := by
  unfold Guarded
  rw [splitOn_rel]
  exact name.part_ne_dotDot

theorem tight : Tight true name.rel := by
  rw [tight_iff.1, splitOn_rel]
  exact name.part_ne_nil

theorem rel_accepted : ¬ (name.rel = [] ∨ name.rel.head? = some slash) := by
  have htight := name.tight
  cases hrel : name.rel with
  | nil =>
    rw [hrel] at htight
    exact absurd htight (by simp [Tight])
  | cons c text =>
    rw [hrel] at htight
    simpa using htight.1 rfl

/-- The handler decodes the name and asks for the file. -/
theorem staticFileHandler_eq {encoding : Bytes} (h : Escapes name.rel encoding)
    (request : HttpRequest) (services : Services) (response : HttpResponse) :
    staticFileHandler request [encoding] services response =
      (response.setFile (services.staticRoot.path ++ lit "/" ++ name.rel), services) := by
  have hguard : ¬ (dotDotLoop name.rel).run 0 := by
    rw [dotDotLoop_eq_false_iff.mpr name.guarded]
    simp
  unfold staticFileHandler
  dsimp only
  rw [h.urlDecode, if_neg name.rel_accepted, if_neg hguard]

/-- The route table gives the handler the encoding as it was written. -/
theorem dispatch_eq {encoding : Bytes} (h : Escapes name.rel encoding) {request : HttpRequest}
    (hmethod : request.method = lit "GET") (hpath : request.path = lit "/static/" ++ encoding)
    (response : HttpResponse) (clientIp : Bytes) (now cleanupNow : Time) (services : Services) :
    Router.dispatch getRouter request response clientIp now cleanupNow services =
      some (response.setFile (services.staticRoot.path ++ lit "/" ++ name.rel), services) := by
  have htight := h.tight name.tight
  have hsegments : Router.splitSegments request.path = lit "static" :: components encoding := by
    have hsplit : request.path = slash :: (lit "static" ++ slash :: encoding) := hpath
    rw [hsplit, Router.splitSegments_slash, components_slash, components_append_slash (by decide)]
    rfl
  obtain ⟨first, parts, hparts⟩ := List.exists_cons_of_ne_nil htight.components_ne_nil
  have hjoin := htight.intercalate_components
  have hstatic : (lit "static").head? ≠ some colon := by decide
  rw [hparts] at hsegments hjoin
  unfold Router.dispatch
  rw [hsegments, getRouter_eq]
  simp [Router.dispatchRoutes, Router.matchSegments, Router.matchEach, hstatic, hmethod, hjoin,
    name.staticFileHandler_eq h]

/-- The request line for a file is read as it was written. -/
theorem parseRequestLine_eq {encoding : Bytes} (h : Escapes name.rel encoding) {version : Bytes}
    (hversion : lit "HTTP/" <+: version) (hspace : ∀ c ∈ version, isSpace c = false) :
    HttpRequest.parseRequestLine
        (lit "GET" ++ 32 :: (lit "/static/" ++ encoding ++ 32 :: version)) .clear =
      some { HttpRequest.clear with
        method := lit "GET", path := lit "/static/" ++ encoding, version := version } := by
  have hmem : ∀ c ∈ lit "/static/" ++ encoding, isSpace c = false ∧ c ≠ 63 :=
    List.forall_mem_append.mpr ⟨by decide +kernel, h.notMem⟩
  have hquestion : find [63] (lit "/static/" ++ encoding) = none :=
    find_singleton_eq_none_iff.mpr fun hc ↦ (hmem 63 hc).2 rfl
  rw [HttpRequest.parseRequestLine_words (by decide) (by decide +kernel) rfl
    (fun c hc ↦ (hmem c hc).1) hversion hspace, hquestion]

/-- The GET request for "/static/" and any percent encoding of a file name, with a request line that is
not too long, header lines that can be read and the body they announce, is parsed and routed, and
reaches `setFile` with the name below the static root. -/
theorem reached {encoding version : Bytes} (h : Escapes name.rel encoding)
    (hversion : lit "HTTP/" <+: version) (hspace : ∀ c ∈ version, isSpace c = false)
    {head : RequestHead}
    (hstart : head.startLine = lit "GET" ++ 32 :: (lit "/static/" ++ encoding ++ 32 :: version))
    (hline : head.startLine.length ≤ HttpRequest.maxRequestLine)
    {fields : List (Bytes × Bytes)} (hfields : head.fieldLines.mapM HttpRequest.headerField = some fields)
    {body : Bytes} (hbody : HttpRequest.announcedLength (HttpRequest.clear.withFields fields) =
      .ok body.length) (rest : Bytes) (response : HttpResponse) (clientIp : Bytes)
    (now cleanupNow : Time) (services : Services) :
    ∃ request, HttpRequest.parse (head.toBytes ++ (body ++ rest)) =
        .ok request (head.toBytes.length + body.length) ∧
      Router.dispatch getRouter request response clientIp now cleanupNow services =
        some (response.setFile (services.staticRoot.path ++ lit "/" ++ name.rel), services) := by
  have hread : HttpRequest.readHead head = .ok { HttpRequest.clear.withFields fields with
      method := lit "GET", path := lit "/static/" ++ encoding, version := version } := by
    unfold HttpRequest.readHead
    rw [if_neg (Nat.not_lt_of_le hline), hstart, name.parseRequestLine_eq h hversion hspace, hfields]
    rfl
  have hlength : HttpRequest.announcedLength { HttpRequest.clear.withFields fields with
      method := lit "GET", path := lit "/static/" ++ encoding, version := version } =
        .ok body.length := hbody
  refine ⟨{ HttpRequest.clear.withFields fields with
    method := lit "GET"
    path := lit "/static/" ++ encoding
    version := version
    body := body
    keepAlive := HttpRequest.decideKeepAlive { HttpRequest.clear.withFields fields with
      method := lit "GET", path := lit "/static/" ++ encoding, version := version } }, ?_, ?_⟩
  · rw [HttpRequest.parse_toBytes, hread]
    dsimp only
    rw [HttpRequest.answerTo, hlength]
    dsimp only
    rw [if_neg (by simp), List.take_left]
  · exact name.dispatch_eq h rfl rfl response clientIp now cleanupNow services

/-- A file in a directory, with a space in its name. -/
def sampleFile : FileName where
  parts := [lit "d", lit "a b"]
  parts_ne_nil := by decide
  part_ne_nil := by decide
  slash_notMem := by decide
  nul_notMem := by decide
  part_ne_dotDot := by decide

theorem escapes_sampleFile : Escapes sampleFile.rel (lit "d%2fa%20b") :=
  .plain 100 (by decide) <| .escape slash false false <| .plain 97 (by decide) <|
    .escape 32 false false <| .plain 98 (by decide) .nil

def sampleHead : RequestHead where
  startLine := lit "GET /static/d%2fa%20b HTTP/1.1"
  fieldLines := [lit "Host: h"]
  find_startLine := by decide
  find_fieldLines := by decide
  fieldLines_ne_nil := by decide

theorem reached_sampleFile :
    ∃ request, HttpRequest.parse (sampleHead.toBytes ++ ([] ++ [])) =
        .ok request (sampleHead.toBytes.length + 0) ∧
      Router.dispatch getRouter request .new [] 0 0 ⟨⟨∅⟩, .new, .static⟩ =
        some (HttpResponse.new.setFile (lit "static/d/a b"), ⟨⟨∅⟩, .new, .static⟩) := by
  have hbody : HttpRequest.announcedLength
      (HttpRequest.clear.withFields [(lit "Host", lit "h")]) = .ok ([] : Bytes).length := by
    unfold HttpRequest.announcedLength
    simp only [HttpRequest.getHeader_withFields]
    rfl
  have hversion : lit "HTTP/" <+: lit "HTTP/1.1" := by decide
  have hstart : sampleHead.startLine =
      lit "GET" ++ 32 :: (lit "/static/" ++ lit "d%2fa%20b" ++ 32 :: lit "HTTP/1.1") := rfl
  have hfields : sampleHead.fieldLines.mapM HttpRequest.headerField =
      some [(lit "Host", lit "h")] := rfl
  exact reached sampleFile escapes_sampleFile hversion (by decide +kernel) hstart (by decide) hfields
    hbody [] .new [] 0 0 ⟨⟨∅⟩, .new, .static⟩

end FileName

end WebServer
