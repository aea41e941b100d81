import WebServer.Http.RequestRoundTrip
import WebServer.Http.RequestStream

/-!
# Size limits of accepted requests

The request line and the body of an accepted request are within their limits. The limit of the header
block is looked at only while the blank line has not arrived, so a header block that arrives with its
blank line in one piece may be of any size, and is refused when it arrives in smaller pieces.
-/

namespace WebServer.HttpRequest

open Bytes Search

/-- The request line of a buffer. -/
def requestLineOf (raw : Bytes) : Bytes :=
  match find crlf raw with
  | some lineEnd => raw.take lineEnd
  | none => raw

/-- Request line, header lines and blank line of a buffer. -/
def headerBlockOf (raw : Bytes) : Bytes :=
  match find blankLine raw with
  | some headerEnd => raw.take (headerEnd + 4)
  | none => raw

/-- An accepted request is within all limits, and no part of its bytes is refused. -/
structure WithinLimits (raw : Bytes) (request : HttpRequest) (consumed : ℕ) : Prop where
  requestLine : (requestLineOf raw).length ≤ maxRequestLine
  headerBlock : (headerBlockOf raw).length ≤ maxHeaderTotal
  body : request.body.length ≤ maxBody
  parts : ∀ part, part <+: raw.take consumed → part ≠ raw.take consumed →
    ∀ code, parse part ≠ .error code

variable {raw : Bytes} {headerEnd : ℕ}

theorem find_of_prefixed {pattern buffer text : Bytes} {i : ℕ} (hpre : buffer <+: text)
    (hfind : find pattern text = some i) (hlen : i + pattern.length ≤ buffer.length) :
    find pattern buffer = some i := by
  obtain ⟨j, hj⟩ := exists_find_of_prefixed hpre hfind hlen
  obtain ⟨suffix, rfl⟩ := hpre
  rw [hj, ← hfind, find_append_of_some hj]

theorem length_headerBlockOf (hend : find blankLine raw = some headerEnd) :
    (headerBlockOf raw).length = headerEnd + 4 := by
  have hle := find_le hend
  unfold headerBlockOf
  rw [hend]
  exact List.length_take_of_le hle

/-- The blank line comes within the first `maxHeaderTotal` bytes just if the header block fits. -/
theorem find_take_iff (hend : find blankLine raw = some headerEnd) :
    (find blankLine (raw.take maxHeaderTotal)).isSome = true ↔ headerEnd + 4 ≤ maxHeaderTotal := by
  have hle := find_le hend
  have hfour : blankLine.length = 4 := rfl
  constructor
  · intro hsome
    obtain ⟨i, hi⟩ := Option.isSome_iff_exists.mp hsome
    have hfound := find_append_of_some hi (raw.drop maxHeaderTotal)
    rw [List.take_append_drop, hend] at hfound
    obtain rfl := Option.some.inj hfound
    have hlen := find_le hi
    rw [List.length_take] at hlen
    omega
  · intro hfits
    rw [find_of_prefixed (List.take_prefix ..) hend (by rw [List.length_take]; omega)]
    rfl

/-- A part of an accepted request that contains the blank line needs more input. -/
theorem parse_part_of_blankLine {request : HttpRequest} {consumed : ℕ}
    (h : parse raw = .ok request consumed) {part : Bytes} (hpart : part <+: raw)
    (hend : find blankLine part = some headerEnd) (code : ℕ) : parse part ≠ .error code := by
  intro herror
  obtain ⟨suffix, rfl⟩ := hpart
  rw [parse_append_of_error hend herror suffix] at h
  exact absurd h (by simp)

theorem requestLine_le {request : HttpRequest} {consumed : ℕ}
    (h : parse raw = .ok request consumed) : (requestLineOf raw).length ≤ maxRequestLine := by
  obtain ⟨headerEnd, head, bodyLen, -, hhead, -⟩ := parse_ok_iff.mp h
  obtain ⟨lineEnd, start, headers, hline, hmax, -⟩ := parseHead_ok_iff.mp hhead
  unfold requestLineOf
  rw [hline]
  exact (List.length_take_le ..).trans hmax

theorem bodyLength_le {text : Bytes} {bodyLen : ℕ} (h : bodyLength text = .ok bodyLen) :
    bodyLen ≤ maxBody := by
  unfold bodyLength at h
  split at h
  · exact Except.ok.inj h ▸ Nat.zero_le _
  · split at h
    · exact absurd h (by simp)
    · split at h
      · exact absurd h (by simp)
      · split at h
        · exact absurd h (by simp)
        · rename_i hmax
          exact Except.ok.inj h ▸ Nat.le_of_not_lt hmax

theorem body_le {request : HttpRequest} {consumed : ℕ} (h : parse raw = .ok request consumed) :
    request.body.length ≤ maxBody := by
  obtain ⟨headerEnd, head, bodyLen, -, hhead, -, -, rfl⟩ := parse_ok_iff.mp h
  obtain ⟨lineEnd, start, headers, -, -, -, -, -, hbody, -⟩ := parseHead_ok_iff.mp hhead
  exact (List.length_take_le ..).trans (bodyLength_le hbody)

/-- An accepted request is within all limits, whatever pieces it arrives in, if and only if its blank
line comes within the first `maxHeaderTotal` bytes. -/
theorem withinLimits_iff {request : HttpRequest} {consumed : ℕ}
    (h : parse raw = .ok request consumed) :
    WithinLimits raw request consumed ↔
      (find blankLine (raw.take maxHeaderTotal)).isSome = true := by
  obtain ⟨headerEnd, head, bodyLen, hend, -, rfl, hle, -⟩ := parse_ok_iff.mp h
  rw [find_take_iff hend]
  constructor
  · intro hwithin
    exact length_headerBlockOf hend ▸ hwithin.headerBlock
  · intro hfits
    refine ⟨requestLine_le h, length_headerBlockOf hend ▸ hfits, body_le h,
      fun part hpart _ code herror ↦ ?_⟩
    have hraw : part <+: raw := hpart.trans (List.take_prefix ..)
    cases hfind : find blankLine part with
    | some i => exact parse_part_of_blankLine h hraw hfind code herror
    | none =>
      -- a part without the blank line is shorter than the header block
      obtain ⟨-, hlong⟩ := parse_error_of_no_blankLine hfind herror
      have hfour : blankLine.length = 4 := rfl
      have hfound := find_of_prefixed hraw hend (by omega)
      exact absurd (hfind.symm.trans hfound) (by simp)

/-- A header field with a value of the given size. -/
def paddedField (size : ℕ) : HeaderField where
  name := lit "A"
  value := List.replicate size 97
  name_ne_nil := by decide
  colon_notMem_name := by decide
  cr_notMem_name := by decide
  lf_notMem_name := by decide
  cr_notMem_value hmem := absurd (List.eq_of_mem_replicate hmem) (by decide)
  lf_notMem_value hmem := absurd (List.eq_of_mem_replicate hmem) (by decide)
  head_value c hc := by
    rw [List.eq_of_mem_replicate (List.mem_of_mem_head? hc)]
    decide
  getLast_value c hc := by
    rw [List.eq_of_mem_replicate (List.mem_of_mem_getLast? hc)]
    decide

theorem paddedField_not_reserved (size : ℕ) :
    ∀ field ∈ [paddedField size] ++ [], field.name ≠ lit "Content-Length" ∧
      field.name ≠ lit "Transfer-Encoding" := by
  intro field hmem
  rw [List.mem_singleton.mp hmem]
  exact (by decide : lit "A" ≠ lit "Content-Length" ∧ lit "A" ≠ lit "Transfer-Encoding")

/-- A request with one header field of the given size. -/
def paddedMessage (size : ℕ) : RequestMessage :=
  { sampleMessage with
    fieldsBefore := [paddedField size]
    fieldsAfter := []
    names_nodup := List.nodup_cons.mpr ⟨List.not_mem_nil, List.nodup_nil⟩
    names_not_reserved := paddedField_not_reserved size }

theorem parse_paddedMessage (size : ℕ) :
    ∃ request, parse (paddedMessage size).serialize =
      .ok request (paddedMessage size).serialize.length := by
  have hline : (paddedMessage size).requestLine.length ≤ maxRequestLine :=
    (by decide : sampleMessage.requestLine.length ≤ maxRequestLine)
  have hparse := parse_serialize_eq (paddedMessage size) [] hline
  rw [List.append_nil] at hparse
  exact ⟨_, hparse⟩

theorem size_lt_length_paddedMessage (size : ℕ) :
    size < (headerBlockOf (paddedMessage size).serialize).length := by
  have hend := (paddedMessage size).headerBlock.find_blankLine (paddedMessage size).body
  have hfour := (paddedMessage size).headerBlock.four_le_length_toBytes
  have hlength : (headerBlockOf (paddedMessage size).serialize).length =
      (paddedMessage size).headerBlock.toBytes.length := by
    rw [RequestMessage.serialize, length_headerBlockOf hend]
    omega
  rw [hlength, HeaderBlock.length_toBytes]
  simp only [RequestMessage.headerBlock, RequestMessage.fields, paddedMessage, paddedField,
    HeaderField.line, List.singleton_append, List.map_cons, HeaderBlock.writeLines_cons,
    List.length_append, List.length_cons, List.length_replicate]
  omega

/-- A header block over the limit that arrives in one piece is accepted. -/
theorem accepts_long_headerBlock :
    ¬ ∀ raw request consumed, parse raw = .ok request consumed →
      WithinLimits raw request consumed := by
  intro h
  obtain ⟨request, hparse⟩ := parse_paddedMessage maxHeaderTotal
  have hblock := (h _ request _ hparse).headerBlock
  exact Nat.not_lt_of_le hblock (size_lt_length_paddedMessage maxHeaderTotal)

theorem withinLimits_iff_paddedMessage :
    ∃ request consumed, parse (paddedMessage 3).serialize = .ok request consumed ∧
      (WithinLimits (paddedMessage 3).serialize request consumed ↔
        (find blankLine ((paddedMessage 3).serialize.take maxHeaderTotal)).isSome = true) := by
  obtain ⟨request, hparse⟩ := parse_paddedMessage 3
  exact ⟨request, _, hparse, withinLimits_iff hparse⟩

end WebServer.HttpRequest
