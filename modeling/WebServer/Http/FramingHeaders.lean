import WebServer.Http.HeaderLines

/-!
# Repeated framing headers

The header map keeps the last line of each name, and `parse` looks at the map. So an accepted request
has a last `Transfer-Encoding` line and a last `Content-Length` line that agree with its body, while the
lines of these names before them were never looked at.
-/

namespace WebServer.HttpRequest

open Bytes Search

/-- The header fields of a buffer. -/
def headerFields (raw : Bytes) : List (Bytes × Bytes) := (headerLines raw).filterMap headerField

def contentLengths (raw : Bytes) : List Bytes := valuesOf (lit "Content-Length") (headerFields raw)

def transferEncodings (raw : Bytes) : List Bytes :=
  valuesOf (lit "Transfer-Encoding") (headerFields raw)

/-- The header lines of a buffer do not contradict each other, nor the body parsed from it. -/
structure FramingSound (raw : Bytes) : Prop where
  transferEncoding : ∀ value ∈ transferEncodings raw, value = [] ∨ value = lit "identity"
  contentLength : ∃ text : Bytes, text ≠ [] ∧ text.all isDigit = true ∧
    ∀ value ∈ contentLengths raw, value = text
  body : ∀ request consumed, parse raw = .ok request consumed →
    (contentLengths raw = [] → request.body = []) ∧
      ∀ value ∈ contentLengths raw, decimalValue value = request.body.length

/-- What the lines say that the map does not keep, and whether the one it keeps is empty. -/
structure NothingHidden (raw : Bytes) : Prop where
  transferEncoding : ∀ value ∈ (transferEncodings raw).dropLast,
    value = [] ∨ value = lit "identity"
  contentLength : ∀ value ∈ (contentLengths raw).dropLast, (contentLengths raw).getLast? = some value
  nonempty : (contentLengths raw).getLast? ≠ some []

/-! ## The lines the map does not keep -/

theorem filterMap_of_mapM {lines : List Bytes} {fields : List (Bytes × Bytes)}
    (h : lines.mapM headerField = some fields) : lines.filterMap headerField = fields := by
  induction lines generalizing fields with
  | nil => exact Option.some.inj h
  | cons line lines ih =>
    rw [List.mapM_cons] at h
    simp only [Option.bind_eq_bind, Option.bind_eq_some_iff] at h
    obtain ⟨field, hfield, rest, hrest, hfields⟩ := h
    rw [List.filterMap_cons_some hfield, ih hrest]
    exact Option.some.inj hfields

/-- The last value of a list is the one the map keeps; the others are hidden. -/
theorem eq_or_mem_dropLast {values : List Bytes} {value : Bytes} (hmem : value ∈ values) :
    values.getLast? = some value ∨ value ∈ values.dropLast := by
  rcases List.eq_nil_or_concat' values with rfl | ⟨before, last, rfl⟩
  · exact absurd hmem List.not_mem_nil
  · rw [List.getLast?_concat, List.dropLast_concat]
    rcases List.mem_append.mp hmem with hbefore | hlast
    · exact .inr hbefore
    · exact .inl (congrArg some (List.mem_singleton.mp hlast).symm)

/-! ## What an accepted request has checked -/

theorem announcedLength_ok_iff {request : HttpRequest} {bodyLen : ℕ} :
    announcedLength request = .ok bodyLen ↔
      bodyLength (request.getHeader (lit "Content-Length")) = .ok bodyLen ∧
        (request.getHeader (lit "Transfer-Encoding") = [] ∨
          request.getHeader (lit "Transfer-Encoding") = lit "identity") := by
  unfold announcedLength
  cases bodyLength (request.getHeader (lit "Content-Length")) with
  | error code => simp
  | ok length =>
    dsimp only
    split
    · rename_i hte
      simp [hte.1, hte.2]
    · rename_i hte
      have hsound := or_iff_not_imp_left.mpr fun hne ↦ not_not.mp fun h ↦ hte ⟨hne, h⟩
      simp only [hsound, and_true]

theorem getHeader_readHead {head : RequestHead} {request : HttpRequest} (rest : Bytes)
    (h : readHead head = .ok request) (name : Bytes) :
    request.getHeader name =
      (valuesOf name (headerFields (head.toBytes ++ rest))).getLast?.getD [] := by
  unfold readHead at h
  split at h
  · exact absurd h (by simp)
  · split at h
    · rename_i start fields hstart hfields
      obtain rfl := Except.ok.inj h
      unfold getHeader headerFields
      rw [headerLines_toBytes, filterMap_of_mapM hfields, parseRequestLine_headers hstart]
      exact getD_insertAll name fields
    · exact absurd h (by simp)

/-- The last framing lines of a buffer that is not refused. -/
theorem framing_of_not_refused {raw : Bytes} (h : ∀ code, parse raw ≠ .error code) :
    ∃ bodyLen, bodyLength ((contentLengths raw).getLast?.getD []) = .ok bodyLen ∧
      ((transferEncodings raw).getLast?.getD [] = [] ∨
        (transferEncodings raw).getLast?.getD [] = lit "identity") ∧
      ∀ request consumed, parse raw = .ok request consumed → request.body.length = bodyLen := by
  cases hend : find blankLine raw with
  | none =>
    have hlines : headerLines raw = [] := by
      unfold headerLines
      rw [hend]
    have hvalues : ∀ name, valuesOf name (headerFields raw) = [] := by
      intro name
      rw [headerFields, hlines]
      rfl
    unfold contentLengths transferEncodings
    rw [hvalues, hvalues]
    refine ⟨0, rfl, .inl rfl, fun request consumed hparse ↦ ?_⟩
    obtain ⟨headerEnd, -, -, hsome, -⟩ := parse_ok_iff.mp hparse
    exact absurd (hend.symm.trans hsome) (by simp)
  | some headerEnd =>
    obtain ⟨head, rest, rfl⟩ := RequestHead.exists_of_blankLine hend
    have hparse := parse_toBytes head rest
    cases hread : readHead head with
    | error code =>
      simp only [hread] at hparse
      exact absurd hparse (h code)
    | ok request =>
      simp only [hread, answerTo] at hparse
      cases hannounced : announcedLength request with
      | error code =>
        simp only [hannounced] at hparse
        exact absurd hparse (h code)
      | ok bodyLen =>
        obtain ⟨hlength, hencoding⟩ := announcedLength_ok_iff.mp hannounced
        rw [getHeader_readHead rest hread] at hlength
        rw [getHeader_readHead rest hread] at hencoding
        refine ⟨bodyLen, hlength, hencoding, fun parsed consumed hok ↦ ?_⟩
        simp only [hannounced] at hparse
        split at hparse
        · exact absurd (hparse.symm.trans hok) (by simp)
        · rename_i henough
          obtain ⟨rfl, -⟩ := Verdict.ok.inj (hparse.symm.trans hok)
          exact List.length_take_of_le (Nat.le_of_not_lt henough)

/-- A nonempty text that is a body length has only digits, and their value is the length. -/
theorem of_bodyLength_ok {text : Bytes} {bodyLen : ℕ} (hne : text ≠ [])
    (h : bodyLength text = .ok bodyLen) :
    text.all isDigit = true ∧ decimalValue text = bodyLen := by
  unfold bodyLength at h
  rw [if_neg hne] at h
  split at h
  · exact absurd h (by simp)
  · rename_i hdigits
    have hall : text.all isDigit = true := by
      simpa [List.all_eq_true, List.any_eq_true] using hdigits
    split at h
    · exact absurd h (by simp)
    · split at h
      · exact absurd h (by simp)
      · exact ⟨hall, Except.ok.inj h⟩

/-- The framing lines of a buffer that is not refused agree with each other and with the body exactly
when no line says something else than the last line of its name, and no `Content-Length` is empty. -/
theorem framingSound_iff {raw : Bytes} (h : ∀ code, parse raw ≠ .error code) :
    FramingSound raw ↔ NothingHidden raw := by
  obtain ⟨bodyLen, hlength, hencoding, hbody⟩ := framing_of_not_refused h
  constructor
  · rintro ⟨htransfer, ⟨text, hne, -, hall⟩, -⟩
    have hlast : ∀ value, (contentLengths raw).getLast? = some value → value = text :=
      fun value hvalue ↦ hall value (List.mem_of_getLast? hvalue)
    refine ⟨fun value hmem ↦ htransfer value (List.mem_of_mem_dropLast hmem),
      fun value hmem ↦ ?_, fun hnil ↦ hne (hlast [] hnil).symm⟩
    have hmem' := List.mem_of_mem_dropLast hmem
    have hsome := List.getLast?_eq_some_getLast (List.ne_nil_of_mem hmem')
    rw [hsome, hlast _ hsome, hall value hmem']
  · intro hhidden
    have htransfer : ∀ value ∈ transferEncodings raw, value = [] ∨ value = lit "identity" := by
      intro value hmem
      rcases eq_or_mem_dropLast hmem with hlast | hbefore
      · rwa [hlast] at hencoding
      · exact hhidden.transferEncoding value hbefore
    cases hlast : (contentLengths raw).getLast? with
    | none =>
      have hnil : contentLengths raw = [] := List.getLast?_eq_none_iff.mp hlast
      rw [hlast] at hlength
      obtain rfl : 0 = bodyLen := Except.ok.inj hlength
      refine ⟨htransfer, ⟨lit "0", by decide, by decide, by simp [hnil]⟩,
        fun request consumed hparse ↦ ⟨fun _ ↦ ?_, by simp [hnil]⟩⟩
      exact List.length_eq_zero_iff.mp (hbody request consumed hparse)
    | some text =>
      have hne : text ≠ [] := fun hnil ↦ hhidden.nonempty (hnil ▸ hlast)
      rw [hlast] at hlength
      obtain ⟨hdigits, hvalue⟩ := of_bodyLength_ok hne hlength
      have hall : ∀ value ∈ contentLengths raw, value = text := by
        intro value hmem
        rcases eq_or_mem_dropLast hmem with hsame | hbefore
        · exact Option.some.inj (hsame.symm.trans hlast)
        · exact Option.some.inj ((hhidden.contentLength value hbefore).symm.trans hlast)
      refine ⟨htransfer, ⟨text, hne, hdigits, hall⟩, fun request consumed hparse ↦
        ⟨fun hnil ↦ ?_, fun value hmem ↦ ?_⟩⟩
      · rw [hnil] at hlast
        exact absurd hlast (by simp)
      · rw [hall value hmem, hvalue, hbody request consumed hparse]

/-- The last of two different body lengths is taken. -/
def contradictingLengths : Bytes :=
  lit "POST / HTTP/1.1\r\nContent-Length: 5\r\nContent-Length: 0\r\n\r\nhello"

def isOk : ParseOutcome → Bool
  | .ok _ _ => true
  | _ => false

theorem isOk_contradictingLengths : isOk (parse contradictingLengths) = true := by
  decide

/-- A second `Content-Length` line hides the first one. -/
theorem accepts_contradictingLengths :
    ¬ ∀ raw request consumed, parse raw = .ok request consumed → FramingSound raw := by
  intro h
  have hok := isOk_contradictingLengths
  cases hparse : parse contradictingLengths with
  | needMore | error =>
    rw [hparse] at hok
    exact absurd hok (by simp [isOk])
  | ok request consumed =>
    obtain ⟨text, -, -, hall⟩ := (h _ request consumed hparse).contentLength
    have hvalues : contentLengths contradictingLengths = [lit "5", lit "0"] := by
      decide
    rw [hvalues] at hall
    have hfive := hall (lit "5") (by simp)
    have hzero := hall (lit "0") (by simp)
    exact absurd (hfive.trans hzero.symm) (by decide)

theorem framingSound_iff_contradictingLengths :
    FramingSound contradictingLengths ↔ NothingHidden contradictingLengths := by
  refine framingSound_iff fun code herror ↦ ?_
  have hok := isOk_contradictingLengths
  rw [herror] at hok
  exact absurd hok (by simp [isOk])

end WebServer.HttpRequest
