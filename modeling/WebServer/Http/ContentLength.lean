import WebServer.Http.FramingHeaders
import WebServer.Http.RequestLimits

/-!
# The size of a request

`parse` takes the size of a body from the text of `Content-Length` and adds it to a position. The text
may be a numeral of any length, and the sizes of the source are words of 64 bits. `parseSized` is the
parser with these words; on every string that can exist it is `parse`, whose sizes are natural numbers,
so neither the conversion nor the addition loses a digit.
-/

namespace WebServer.HttpRequest

open Bytes Search

/-- `std::string::max_size()`: no string is longer. -/
def maxStringSize : ℕ := 2 ^ 63 - 1

/-- `std::stoull` of a digit string; `none` is `std::out_of_range`. -/
def stoull (text : Bytes) : Option UInt64 :=
  if decimalValue text < UInt64.size then some (UInt64.ofNat (decimalValue text)) else none

/-- The body length announced by `Content-Length` as a `size_t`, or the code that refuses it. -/
def bodyLengthSized (contentLength : Bytes) : Except ℕ UInt64 :=
  if contentLength = [] then .ok 0
  else if contentLength.any (!isDigit ·) then .error 400
  else
    match stoull contentLength with
    | none => .error 400
    | some bodyLen => if UInt64.ofNat maxBody < bodyLen then .error 413 else .ok bodyLen

/-- Steps 2 and 3 of `parse`: the request line and the header lines. -/
def parseLines (raw : Bytes) (headerEnd : ℕ) : Except ℕ HttpRequest :=
  match find crlf raw with
  | none => .error 431
  | some lineEnd =>
    if maxRequestLine < lineEnd then .error 431
    else
      match parseRequestLine (substr raw 0 lineEnd) clear with
      | none => .error 400
      | some request =>
        match (headerLoop raw headerEnd).run (lineEnd + 2, request.headers) with
        | none => .error 400
        | some headers => .ok { request with headers := headers }

/-- `parse` with its sizes as `size_t` values. -/
def parseSized (raw : Bytes) : ParseOutcome :=
  let size := UInt64.ofNat raw.length
  match find blankLine raw with
  | none => if UInt64.ofNat maxHeaderTotal < size then .error 431 else .needMore
  | some headerEnd =>
    match parseLines raw headerEnd with
    | .error code => .error code
    | .ok request =>
      match bodyLengthSized (request.getHeader (lit "Content-Length")) with
      | .error code => .error code
      | .ok bodyLen =>
        let te := request.getHeader (lit "Transfer-Encoding")
        if te ≠ [] ∧ te ≠ lit "identity" then .error 501
        else
          let bodyStart := UInt64.ofNat headerEnd + 4
          let consumed := bodyStart + bodyLen
          if size < consumed then .needMore
          else
            .ok { request with
              body := substr raw bodyStart.toNat bodyLen.toNat
              keepAlive := decideKeepAlive request } consumed.toNat

/-- What the value of `Content-Length` makes of a buffer whose header lines are read. -/
structure FramedByLength (raw : Bytes) (headerEnd : ℕ) (value te : Bytes) (answer : ParseOutcome) :
    Prop where
  needMore : value.all isDigit = true → decimalValue value ≤ maxBody →
    te = [] ∨ te = lit "identity" → raw.length < headerEnd + 4 + decimalValue value → answer = .needMore
  complete : value.all isDigit = true → decimalValue value ≤ maxBody →
    te = [] ∨ te = lit "identity" → headerEnd + 4 + decimalValue value ≤ raw.length →
      ∃ request, answer = .ok request (headerEnd + 4 + decimalValue value) ∧
        request.body = substr raw (headerEnd + 4) (decimalValue value) ∧
        request.body.length = decimalValue value
  tooLarge : value.all isDigit = true → maxBody < decimalValue value →
    ∃ code, answer = .error code
  noNumber : (∃ c ∈ value, isDigit c = false) → ∃ code, answer = .error code

/-! ## Words -/

theorem toNat_ofNat_length {raw : Bytes} (hsize : raw.length ≤ maxStringSize) :
    (UInt64.ofNat raw.length).toNat = raw.length :=
  UInt64.toNat_ofNat_of_lt' (hsize.trans_lt (by decide))

theorem stoull_of_lt {text : Bytes} (h : decimalValue text < UInt64.size) :
    stoull text = some (UInt64.ofNat (decimalValue text)) := if_pos h

theorem stoull_of_le {text : Bytes} (h : UInt64.size ≤ decimalValue text) : stoull text = none :=
  if_neg (Nat.not_lt_of_le h)

/-- The limit is tested on the word that the conversion gives, as on the number. -/
theorem bodyLengthSized_map (text : Bytes) :
    (bodyLengthSized text).map UInt64.toNat = bodyLength text := by
  unfold bodyLengthSized bodyLength
  split
  · rfl
  · split
    · rfl
    · by_cases hfits : decimalValue text < UInt64.size
      · have hword : (UInt64.ofNat (decimalValue text)).toNat = decimalValue text :=
          UInt64.toNat_ofNat_of_lt' hfits
        have hlimit : (UInt64.ofNat maxBody).toNat = maxBody :=
          UInt64.toNat_ofNat_of_lt' (by decide)
        rw [if_neg (show ¬ 2 ^ 64 ≤ decimalValue text from Nat.not_le_of_lt hfits),
          stoull_of_lt hfits]
        simp only [UInt64.lt_iff_toNat_lt, hword, hlimit]
        split
        · rfl
        · exact congrArg Except.ok hword
      · have hlarge : UInt64.size ≤ decimalValue text := Nat.le_of_not_lt hfits
        rw [if_pos (show 2 ^ 64 ≤ decimalValue text from hlarge), stoull_of_le hlarge]
        rfl

/-- `parseHead` first reads the lines and then looks at the two headers of the body. -/
theorem parseHead_eq (raw : Bytes) (headerEnd : ℕ) :
    parseHead raw headerEnd =
      (parseLines raw headerEnd).bind fun request ↦
        (announcedLength request).map fun bodyLen ↦ (request, bodyLen) := by
  unfold parseHead parseLines
  cases find crlf raw with
  | none => rfl
  | some lineEnd =>
    dsimp only
    split
    · rfl
    · cases parseRequestLine (substr raw 0 lineEnd) clear with
      | none => rfl
      | some start =>
        dsimp only
        cases (headerLoop raw headerEnd).run (lineEnd + 2, start.headers) with
        | none => rfl
        | some headers =>
          simp only [Except.bind]
          generalize HttpRequest.mk .. = read
          unfold announcedLength
          cases bodyLength (read.getHeader (lit "Content-Length")) with
          | error code => rfl
          | ok bodyLen =>
            dsimp only
            split <;> rfl

/-- The sum of a position in a string and an accepted body length is below `2 ^ 64`. -/
theorem toNat_consumed {headerEnd : ℕ} {bodyLen : UInt64} (hend : headerEnd + 4 ≤ maxStringSize)
    (hbody : bodyLen.toNat ≤ maxBody) :
    (UInt64.ofNat headerEnd + 4).toNat = headerEnd + 4 ∧
      (UInt64.ofNat headerEnd + 4 + bodyLen).toNat = headerEnd + 4 + bodyLen.toNat := by
  have hfits : headerEnd + 4 + bodyLen.toNat < UInt64.size := calc
    headerEnd + 4 + bodyLen.toNat ≤ maxStringSize + maxBody := Nat.add_le_add hend hbody
    _ < UInt64.size := by decide
  have hstart : (UInt64.ofNat headerEnd + 4).toNat = headerEnd + 4 := by
    rw [UInt64.toNat_add, UInt64.toNat_ofNat_of_lt' (by omega)]
    exact Nat.mod_eq_of_lt ((Nat.le_add_right ..).trans_lt hfits)
  refine ⟨hstart, ?_⟩
  rw [UInt64.toNat_add, hstart]
  exact Nat.mod_eq_of_lt hfits

theorem parse_of_error {raw : Bytes} {headerEnd code : ℕ} (hend : find blankLine raw = some headerEnd)
    (hlines : parseLines raw headerEnd = .error code) : parse raw = .error code := by
  rw [parse_eq_of_blankLine hend, parseHead_eq, hlines]
  rfl

/-- A buffer whose lines are read is answered by its two headers and the bytes behind the blank line. -/
theorem parse_of_parseLines {raw : Bytes} {headerEnd : ℕ} {request : HttpRequest}
    (hend : find blankLine raw = some headerEnd) (hlines : parseLines raw headerEnd = .ok request) :
    parse raw = answerTo request (headerEnd + 4) (raw.drop (headerEnd + 4)) := by
  have hle : headerEnd + 4 ≤ raw.length := find_le hend
  rw [parse_eq_of_blankLine hend, parseHead_eq, hlines]
  unfold answerTo
  simp only [Except.bind]
  cases announcedLength request with
  | error code => rfl
  | ok bodyLen =>
    have hmissing : raw.length < headerEnd + 4 + bodyLen ↔
        (raw.drop (headerEnd + 4)).length < bodyLen := by
      rw [List.length_drop]
      omega
    simp only [Except.map, hmissing, substr]

/-- The words of the parser do not wrap: on every string that can exist it computes the same as with
natural numbers. -/
theorem parseSized_eq {raw : Bytes} (hsize : raw.length ≤ maxStringSize) :
    parseSized raw = parse raw := by
  have hraw := toNat_ofNat_length hsize
  cases hend : find blankLine raw with
  | none =>
    have hlimit : (UInt64.ofNat maxHeaderTotal).toNat = maxHeaderTotal :=
      UInt64.toNat_ofNat_of_lt' (by decide)
    simp only [parseSized, hend, parse_eq_of_no_blankLine hend, UInt64.lt_iff_toNat_lt, hraw, hlimit]
  | some headerEnd =>
    have hle : headerEnd + 4 ≤ raw.length := find_le hend
    cases hlines : parseLines raw headerEnd with
    | error code => simp only [parseSized, hend, hlines, parse_of_error hend hlines]
    | ok request =>
      have hlength := bodyLengthSized_map (request.getHeader (lit "Content-Length"))
      rw [parse_of_parseLines hend hlines]
      unfold answerTo announcedLength
      rw [← hlength]
      cases hsized : bodyLengthSized (request.getHeader (lit "Content-Length")) with
      | error code =>
        simp only [parseSized, hend, hlines, hsized]
        rfl
      | ok bodyLen =>
        rw [hsized] at hlength
        have hmax : bodyLen.toNat ≤ maxBody := bodyLength_le hlength.symm
        obtain ⟨hstart, hsum⟩ := toNat_consumed (hle.trans hsize) hmax
        have hmissing : raw.length < headerEnd + 4 + bodyLen.toNat ↔
            (raw.drop (headerEnd + 4)).length < bodyLen.toNat := by
          rw [List.length_drop]
          omega
        simp only [parseSized, hend, hlines, hsized, UInt64.lt_iff_toNat_lt, hraw, hstart, hsum,
          hmissing, Except.map, substr]
        split <;> rfl

/-! ## Values -/

theorem any_not_isDigit_eq_false {value : Bytes} (hdigits : value.all isDigit = true) :
    value.any (!isDigit ·) = false := by
  apply List.any_eq_false.mpr
  intro c hc
  simp [List.all_eq_true.mp hdigits c hc]

theorem bodyLength_of_le {value : Bytes} (hdigits : value.all isDigit = true)
    (hle : decimalValue value ≤ maxBody) : bodyLength value = .ok (decimalValue value) := by
  have hfits : decimalValue value < 2 ^ 64 := hle.trans_lt (by decide)
  unfold bodyLength
  by_cases hnil : value = []
  · rw [if_pos hnil, hnil]
    rfl
  · rw [if_neg hnil, any_not_isDigit_eq_false hdigits, if_neg Bool.false_ne_true,
      if_neg (Nat.not_le_of_lt hfits), if_neg (Nat.not_lt_of_le hle)]

/-- A number over the limit is refused, as too large for the server or too large for a word. -/
theorem bodyLength_of_lt {value : Bytes} (hlarge : maxBody < decimalValue value) :
    ∃ code, bodyLength value = .error code := by
  have hne : value ≠ [] := by
    rintro rfl
    exact absurd hlarge (by decide)
  unfold bodyLength
  rw [if_neg hne]
  split
  · exact ⟨400, rfl⟩
  · split
    · exact ⟨400, rfl⟩
    · exact ⟨413, rfl⟩

theorem bodyLength_of_not_isDigit {value : Bytes} (h : ∃ c ∈ value, isDigit c = false) :
    bodyLength value = .error 400 := by
  obtain ⟨c, hc, hdigit⟩ := h
  have hany : value.any (!isDigit ·) = true := List.any_eq_true.mpr ⟨c, hc, by simp [hdigit]⟩
  unfold bodyLength
  rw [if_neg (List.ne_nil_of_mem hc), if_pos hany]

/-! ## The answer -/

theorem answerTo_of_error {request : HttpRequest} {code : ℕ}
    (h : bodyLength (request.getHeader (lit "Content-Length")) = .error code)
    (size : ℕ) (rest : Bytes) : answerTo request size rest = .error code := by
  unfold answerTo announcedLength
  rw [h]

/-- A buffer whose lines are read is framed by the number that `Content-Length` writes, whatever its
size, and no word of the parser wraps on the way. -/
theorem parse_framedByLength {raw : Bytes} {headerEnd : ℕ} {request : HttpRequest}
    (hend : find blankLine raw = some headerEnd) (hlines : parseLines raw headerEnd = .ok request) :
    FramedByLength raw headerEnd (request.getHeader (lit "Content-Length"))
        (request.getHeader (lit "Transfer-Encoding")) (parse raw) ∧
      (raw.length ≤ maxStringSize → parseSized raw = parse raw) := by
  refine ⟨?_, parseSized_eq⟩
  have hle : headerEnd + 4 ≤ raw.length := find_le hend
  have hlength : (raw.drop (headerEnd + 4)).length = raw.length - (headerEnd + 4) := List.length_drop
  rw [parse_of_parseLines hend hlines]
  constructor
  case needMore =>
    intro hdigits hmax hencoding hmissing
    have hannounced := announcedLength_ok_iff.mpr ⟨bodyLength_of_le hdigits hmax, hencoding⟩
    unfold answerTo
    simp only [hannounced]
    exact if_pos (by omega)
  case complete =>
    intro hdigits hmax hencoding henough
    have hannounced := announcedLength_ok_iff.mpr ⟨bodyLength_of_le hdigits hmax, hencoding⟩
    unfold answerTo
    simp only [hannounced]
    rw [if_neg (by omega)]
    refine ⟨_, rfl, rfl, ?_⟩
    exact List.length_take_of_le (by omega)
  case tooLarge =>
    intro _ hlarge
    obtain ⟨code, hcode⟩ := bodyLength_of_lt hlarge
    exact ⟨code, answerTo_of_error hcode _ _⟩
  case noNumber =>
    intro hother
    exact ⟨400, answerTo_of_error (bodyLength_of_not_isDigit hother) _ _⟩

/-- A body of 4 bytes under the length 2 ^ 64 + 4. -/
def wrappingLength : Bytes :=
  lit "POST / HTTP/1.1\r\nContent-Length: 018446744073709551620\r\n\r\nbody"

theorem parse_framedByLength_wrappingLength :
    ∃ code, parse wrappingLength = .error code ∧ parseSized wrappingLength = .error code := by
  have hend : find blankLine wrappingLength = some 54 := by decide
  have hvalue : (parseLines wrappingLength 54).toOption.map (·.getHeader (lit "Content-Length")) =
      some (lit "018446744073709551620") := by
    decide
  cases hlines : parseLines wrappingLength 54 with
  | error code =>
    rw [hlines] at hvalue
    exact absurd hvalue (by simp [Except.toOption])
  | ok request =>
    rw [hlines] at hvalue
    have hheader : request.getHeader (lit "Content-Length") = lit "018446744073709551620" :=
      Option.some.inj hvalue
    obtain ⟨hframed, hsized⟩ := parse_framedByLength hend hlines
    rw [hheader] at hframed
    obtain ⟨code, hcode⟩ := hframed.tooLarge (by decide) (by decide)
    exact ⟨code, hcode, (hsized (by decide)).trans hcode⟩

end WebServer.HttpRequest
