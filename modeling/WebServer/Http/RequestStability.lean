import WebServer.Http.Request

/-!
# Verdicts of the parser on longer buffers

The parser is called again on the whole buffer each time bytes arrive, so what it answers on a buffer
must not depend on bytes behind the request. A complete request stays complete with the same content,
and an error found behind a blank line stays the same error. The only verdict that can change is the
431 for a long buffer without a blank line.
-/

namespace WebServer.HttpRequest

open Bytes Search

variable {raw suffix : Bytes} {headerEnd : ℕ}

/-! ## The header block -/

theorem crlf_prefix_blankLine : crlf <+: blankLine := ⟨crlf, rfl⟩

/-- The blank line gives every line search before it an answer. -/
theorem exists_crlf_le (hend : find blankLine raw = some headerEnd) {pos : ℕ}
    (hpos : pos ≤ headerEnd) : ∃ eol ≤ headerEnd, findFrom crlf raw pos = some eol := by
  obtain ⟨hle, hp, -⟩ := find_eq_some_iff.mp hend
  exact exists_findFrom_le hpos hle (crlf_prefix_blankLine.trans hp)

theorem crlf_append (hend : find blankLine raw = some headerEnd) (suffix : Bytes) :
    find crlf (raw ++ suffix) = find crlf raw := by
  obtain ⟨eol, -, heol⟩ := exists_crlf_le hend (Nat.zero_le headerEnd)
  rw [findFrom_zero] at heol
  rw [find_append_of_some heol, heol]

theorem substr_append {pos count : ℕ} (h : pos + count ≤ raw.length) (suffix : Bytes) :
    substr (raw ++ suffix) pos count = substr raw pos count := by
  unfold substr
  rw [List.drop_append_of_le_length (by omega),
    List.take_append_of_le_length (by rw [List.length_drop]; omega)]

/-- A turn of the header loop reads nothing behind the blank line. -/
theorem headerLoop_body_append (hend : find blankLine raw = some headerEnd) (suffix : Bytes)
    (state : ℕ × StringMap) :
    (headerLoop (raw ++ suffix) headerEnd).body state = (headerLoop raw headerEnd).body state := by
  unfold headerLoop
  dsimp only
  by_cases hpos : state.1 < headerEnd
  · obtain ⟨eol, hle, heol⟩ := exists_crlf_le hend (Nat.le_of_lt hpos)
    have hlen := find_le hend
    have hge := le_of_findFrom heol
    rw [if_pos hpos, if_pos hpos, heol, findFrom_append_of_some heol]
    dsimp only
    rw [substr_append (by omega)]
  · rw [if_neg hpos, if_neg hpos]

theorem headerLoop_append (hend : find blankLine raw = some headerEnd) (suffix : Bytes)
    (state : ℕ × StringMap) :
    (headerLoop (raw ++ suffix) headerEnd).run state = (headerLoop raw headerEnd).run state := by
  refine WhileLoop.run_congr _ _ Eq ?_ ?_ rfl
  · rintro s _ s' rfl hbody
    exact ⟨s', (headerLoop_body_append hend suffix s) ▸ hbody, rfl⟩
  · rintro s _ r rfl hbody
    exact (headerLoop_body_append hend suffix s) ▸ hbody

theorem parseHead_append (hend : find blankLine raw = some headerEnd) (suffix : Bytes) :
    parseHead (raw ++ suffix) headerEnd = parseHead raw headerEnd := by
  unfold parseHead
  rw [crlf_append hend]
  cases hline : find crlf raw with
  | none => rfl
  | some lineEnd =>
    have hle := find_le hline
    dsimp only
    rw [substr_append (by omega)]
    simp only [headerLoop_append hend]

/-! ## Verdicts -/

/-- Everything an accepted head went through. -/
theorem parseHead_ok_iff {request : HttpRequest} {bodyLen : ℕ} :
    parseHead raw headerEnd = .ok (request, bodyLen) ↔
      ∃ lineEnd start headers, find crlf raw = some lineEnd ∧ lineEnd ≤ maxRequestLine ∧
        parseRequestLine (substr raw 0 lineEnd) clear = some start ∧
        (headerLoop raw headerEnd).run (lineEnd + 2, start.headers) = some headers ∧
        request = { start with headers := headers } ∧
        bodyLength (request.getHeader (lit "Content-Length")) = .ok bodyLen ∧
        (request.getHeader (lit "Transfer-Encoding") = [] ∨
          request.getHeader (lit "Transfer-Encoding") = lit "identity") := by
  constructor
  · intro h
    unfold parseHead at h
    split at h
    · exact absurd h (by simp)
    · rename_i lineEnd hline
      split at h
      · exact absurd h (by simp)
      · rename_i hmax
        split at h
        · exact absurd h (by simp)
        · rename_i start hstart
          split at h
          · exact absurd h (by simp)
          · rename_i headers hloop
            dsimp only at h
            split at h
            · exact absurd h (by simp)
            · rename_i n hbody
              split at h
              · exact absurd h (by simp)
              · rename_i hte
                obtain ⟨rfl, rfl⟩ := Prod.mk.inj (Except.ok.inj h)
                refine ⟨lineEnd, start, headers, hline, by omega, hstart, hloop, rfl, hbody, ?_⟩
                by_contra hcon
                exact hte (not_or.mp hcon)
  · rintro ⟨lineEnd, start, headers, hline, hmax, hstart, hloop, rfl, hbody, hte⟩
    simp only [parseHead, hline, hstart, hloop, hbody]
    rw [if_neg (by omega), if_neg (by tauto)]

/-- What `parse` answers on a buffer with a blank line, in terms of its head. -/
theorem parse_eq_of_blankLine (hend : find blankLine raw = some headerEnd) :
    parse raw = match parseHead raw headerEnd with
      | .error code => .error code
      | .ok (request, bodyLen) =>
        if raw.length < headerEnd + 4 + bodyLen then .needMore
        else .ok { request with
          body := substr raw (headerEnd + 4) bodyLen
          keepAlive := decideKeepAlive request } (headerEnd + 4 + bodyLen) := by
  unfold parse
  split
  · rename_i hnone
    exact absurd (hnone.symm.trans hend) (by simp)
  · rename_i hsome
    obtain rfl := Option.some.inj (hsome.symm.trans hend)
    rfl

theorem parse_eq_of_no_blankLine (hend : find blankLine raw = none) :
    parse raw = if maxHeaderTotal < raw.length then .error 431 else .needMore := by
  unfold parse
  rw [hend]

/-- Without a blank line only the size of the buffer is refused. -/
theorem parse_error_of_no_blankLine {code : ℕ} (hend : find blankLine raw = none)
    (h : parse raw = .error code) : code = 431 ∧ maxHeaderTotal < raw.length := by
  rw [parse_eq_of_no_blankLine hend] at h
  split at h
  · exact ⟨(Verdict.error.inj h).symm, ‹_›⟩
  · exact absurd h (by simp)

/-- Everything an accepted buffer determines. -/
theorem parse_ok_iff {request : HttpRequest} {consumed : ℕ} :
    parse raw = .ok request consumed ↔
      ∃ headerEnd head bodyLen, find blankLine raw = some headerEnd ∧
        parseHead raw headerEnd = .ok (head, bodyLen) ∧ consumed = headerEnd + 4 + bodyLen ∧
        consumed ≤ raw.length ∧
        request = { head with
          body := substr raw (headerEnd + 4) bodyLen
          keepAlive := decideKeepAlive head } := by
  constructor
  · intro h
    cases hend : find blankLine raw with
    | none =>
      rw [parse_eq_of_no_blankLine hend] at h
      split at h <;> exact absurd h (by simp)
    | some headerEnd =>
      rw [parse_eq_of_blankLine hend] at h
      cases hhead : parseHead raw headerEnd with
      | error code =>
        rw [hhead] at h
        exact absurd h (by simp)
      | ok head =>
        obtain ⟨head, bodyLen⟩ := head
        simp only [hhead] at h
        split at h
        · exact absurd h (by simp)
        · rename_i hlen
          obtain ⟨rfl, rfl⟩ := Verdict.ok.inj h
          exact ⟨headerEnd, head, bodyLen, rfl, hhead, rfl, by omega, rfl⟩
  · rintro ⟨headerEnd, head, bodyLen, hend, hhead, rfl, hle, rfl⟩
    simp only [parse_eq_of_blankLine hend, hhead]
    rw [if_neg (by omega)]

/-- The status codes a request can be refused with. -/
theorem parse_error_code {code : ℕ} (h : parse raw = .error code) :
    code ∈ [400, 413, 431, 501] := by
  have hlength {text : Bytes} {code : ℕ} (h : bodyLength text = .error code) :
      code ∈ [400, 413, 431, 501] := by
    unfold bodyLength at h
    split at h
    · exact absurd h (by simp)
    · split at h
      · exact Except.error.inj h ▸ by simp
      · split at h
        · exact Except.error.inj h ▸ by simp
        · split at h
          · exact Except.error.inj h ▸ by simp
          · exact absurd h (by simp)
  have hhead {headerEnd code : ℕ} (h : parseHead raw headerEnd = .error code) :
      code ∈ [400, 413, 431, 501] := by
    unfold parseHead at h
    split at h
    · exact Except.error.inj h ▸ by simp
    · split at h
      · exact Except.error.inj h ▸ by simp
      · split at h
        · exact Except.error.inj h ▸ by simp
        · split at h
          · exact Except.error.inj h ▸ by simp
          · dsimp only at h
            split at h
            · rename_i hbody
              exact Except.error.inj h ▸ hlength hbody
            · split at h
              · exact Except.error.inj h ▸ by simp
              · exact absurd h (by simp)
  cases hend : find blankLine raw with
  | none => simp [(parse_error_of_no_blankLine hend h).1]
  | some headerEnd =>
    rw [parse_eq_of_blankLine hend] at h
    split at h
    · rename_i hcode
      exact Verdict.error.inj h ▸ hhead hcode
    · split at h <;> exact absurd h (by simp)

theorem parse_consumed_bounds {request : HttpRequest} {consumed : ℕ}
    (h : parse raw = .ok request consumed) : 4 ≤ consumed ∧ consumed ≤ raw.length := by
  obtain ⟨headerEnd, head, bodyLen, -, -, rfl, hle, -⟩ := parse_ok_iff.mp h
  omega

/-- A complete request stays complete, with the same content, when more bytes arrive. -/
theorem parse_append_of_ok {request : HttpRequest} {consumed : ℕ}
    (h : parse raw = .ok request consumed) (suffix : Bytes) :
    parse (raw ++ suffix) = .ok request consumed := by
  obtain ⟨headerEnd, head, bodyLen, hend, hhead, rfl, hle, rfl⟩ := parse_ok_iff.mp h
  refine parse_ok_iff.mpr ⟨headerEnd, head, bodyLen, find_append_of_some hend suffix, ?_, rfl, ?_, ?_⟩
  · rw [parseHead_append hend, hhead]
  · rw [List.length_append]
    omega
  · rw [substr_append (by omega)]

/-- The bytes of an accepted request are enough to accept it. -/
theorem parse_take_of_ok {request : HttpRequest} {consumed : ℕ}
    (h : parse raw = .ok request consumed) :
    parse (substr raw 0 consumed) = .ok request consumed := by
  obtain ⟨headerEnd, head, bodyLen, hend, hhead, rfl, hle, rfl⟩ := parse_ok_iff.mp h
  have hfour : blankLine.length = 4 := rfl
  have htake : find blankLine (raw.take (headerEnd + 4 + bodyLen)) = some headerEnd :=
    find_take_of_le hend (by omega)
  have hlength : (raw.take (headerEnd + 4 + bodyLen)).length = headerEnd + 4 + bodyLen :=
    List.length_take_of_le hle
  have hsplit := List.take_append_drop (headerEnd + 4 + bodyLen) raw
  have hsame : parseHead raw headerEnd = parseHead (raw.take (headerEnd + 4 + bodyLen)) headerEnd := by
    calc parseHead raw headerEnd
        = parseHead (raw.take (headerEnd + 4 + bodyLen) ++
            raw.drop (headerEnd + 4 + bodyLen)) headerEnd := by rw [hsplit]
      _ = parseHead (raw.take (headerEnd + 4 + bodyLen)) headerEnd := parseHead_append htake _
  have hbody : substr raw (headerEnd + 4) bodyLen =
      substr (raw.take (headerEnd + 4 + bodyLen)) (headerEnd + 4) bodyLen := by
    calc substr raw (headerEnd + 4) bodyLen
        = substr (raw.take (headerEnd + 4 + bodyLen) ++
            raw.drop (headerEnd + 4 + bodyLen)) (headerEnd + 4) bodyLen := by rw [hsplit]
      _ = substr (raw.take (headerEnd + 4 + bodyLen)) (headerEnd + 4) bodyLen :=
          substr_append hlength.ge _
  rw [substr, List.drop_zero]
  exact parse_ok_iff.mpr
    ⟨headerEnd, head, bodyLen, htake, hsame ▸ hhead, rfl, hlength.ge, by rw [hbody]⟩

/-- An error found behind a blank line stays the same error. -/
theorem parse_append_of_error {code : ℕ} (hend : find blankLine raw = some headerEnd)
    (h : parse raw = .error code) (suffix : Bytes) : parse (raw ++ suffix) = .error code := by
  rw [parse_eq_of_blankLine hend] at h
  rw [parse_eq_of_blankLine (find_append_of_some hend suffix), parseHead_append hend]
  cases hhead : parseHead raw headerEnd with
  | error c =>
    rw [hhead] at h
    exact h
  | ok head =>
    simp only [hhead] at h
    split at h <;> exact absurd h (by simp)

/-- What the parser has decided about a buffer it decides about every longer one, and for a complete
request about the bytes of the request alone. -/
structure FinalVerdict (raw : Bytes) : Prop where
  ok : ∀ request consumed, parse raw = .ok request consumed →
    4 ≤ consumed ∧ consumed ≤ raw.length ∧
      parse (substr raw 0 consumed) = .ok request consumed ∧
        ∀ suffix, parse (raw ++ suffix) = .ok request consumed
  error : blankLine <:+: raw → ∀ code, parse raw = .error code →
    ∀ suffix, parse (raw ++ suffix) = .error code

/-- The verdicts of the parser on any buffer are final. -/
theorem parse_final (raw : Bytes) : FinalVerdict raw where
  ok request consumed h := by
    obtain ⟨hfour, hle⟩ := parse_consumed_bounds h
    exact ⟨hfour, hle, parse_take_of_ok h, parse_append_of_ok h⟩
  error hblank code h suffix := by
    obtain ⟨headerEnd, hend⟩ := Option.isSome_iff_exists.mp (find_isSome_iff.mpr hblank)
    exact parse_append_of_error hend h suffix

end WebServer.HttpRequest
