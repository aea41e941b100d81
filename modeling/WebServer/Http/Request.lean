import WebServer.Foundation.Framing
import WebServer.Http.Bytes

/-!
# The request parser

`HttpRequest.parse` reads one request from the front of the input buffer: it looks for the blank
line, parses the request line and the header lines before it, and takes the body length from
`Content-Length`. The parser keeps nothing between calls; a call answers that the buffer holds too
little, that it starts with a complete request of a given size, or that it cannot be a request and
which status code to refuse it with. The three results of the source, together with the out
parameter and the members read after each of them, are the constructors of a `Verdict`.
-/

namespace WebServer

open Bytes Search

structure HttpRequest where
  method : Bytes
  path : Bytes
  version : Bytes
  headers : StringMap
  queryParams : StringMap
  body : Bytes
  keepAlive : Bool

/-- `ParseResult`, with `consumed` and the parsed members for `OK` and `errorCode()` for `ERROR`. -/
abbrev ParseOutcome := Verdict HttpRequest ℕ

namespace HttpRequest

def maxRequestLine : ℕ := 8192
def maxHeaderTotal : ℕ := 65536
def maxBody : ℕ := 16 * 1024 * 1024

def clear : HttpRequest where
  method := []
  path := []
  version := []
  headers := ∅
  queryParams := ∅
  body := []
  keepAlive := false

def getQueryParam (request : HttpRequest) (key : Bytes) : Bytes := request.queryParams.getD key []

def getHeader (request : HttpRequest) (key : Bytes) : Bytes := request.headers.getD key []

/-! ## Lines -/

/-- `std::getline(stream, item, delimiter)` and what is left of the stream. -/
def getline (delimiter : Byte) (text : Bytes) : Option (Bytes × Bytes) :=
  if text = [] then none
  else some (text.takeWhile (· ≠ delimiter), (text.dropWhile (· ≠ delimiter)).tail)

theorem getline_length_lt {delimiter : Byte} {text item rest : Bytes}
    (h : getline delimiter text = some (item, rest)) : rest.length < text.length := by
  unfold getline at h
  split at h
  · exact absurd h (by simp)
  · rename_i hne
    obtain ⟨-, rfl⟩ := Prod.mk.inj (Option.some.inj h)
    have hle := (List.dropWhile_sublist (· ≠ delimiter) (l := text)).length_le
    have hpos := List.length_pos_iff.mpr hne
    rw [List.length_tail]
    omega

def addQueryPair (pair : Bytes) (queryParams : StringMap) : StringMap :=
  match find [61] pair with
  | some eq => queryParams.insert (pair.take eq) (pair.drop (eq + 1))
  | none => if pair ≠ [] then queryParams.insert pair [] else queryParams

/-- The state of the loop is the rest of the stream and the parameters so far. -/
def queryLoop : WhileLoop (Bytes × StringMap) StringMap where
  body state :=
    match getline 38 state.1 with
    | some (pair, rest) => .next (rest, addQueryPair pair state.2)
    | none => .exit state.2
  measure state := state.1.length
  decreases state state' h := by
    split at h
    · rename_i pair rest hline
      obtain rfl := Turn.next.inj h
      exact getline_length_lt hline
    · exact absurd h (by simp)

def parseQueryParams (queryStr : Bytes) (queryParams : StringMap) : StringMap :=
  queryLoop.run (queryStr, queryParams)

def parseRequestLine (line : Bytes) (request : HttpRequest) : Option HttpRequest := do
  let (method, rest) ← extractWord line
  let (path, rest) ← extractWord rest
  let (version, _) ← extractWord rest
  if method = [] ∨ path = [] ∨ version = [] then none
  else if path.head? ≠ some slash then none
  else if version.take 5 ≠ lit "HTTP/" then none
  else
    match find [63] path with
    | some q =>
      some { request with
        method := method
        path := path.take q
        version := version
        queryParams := parseQueryParams (path.drop (q + 1)) request.queryParams }
    | none => some { request with method := method, path := path, version := version }

def parseHeaderLine (line : Bytes) (headers : StringMap) : Option StringMap :=
  match find [colon] line with
  | none => none
  | some i =>
    let key := line.take i
    let value := trim (line.drop (i + 1))
    if key = [] then none else some (headers.insert key value)

/-! ## The whole request -/

/-- The header loop of `parse`; its state is `pos` and the headers so far, `none` a refused line. -/
def headerLoop (raw : Bytes) (headerEnd : ℕ) : WhileLoop (ℕ × StringMap) (Option StringMap) where
  body state :=
    if state.1 < headerEnd then
      match findFrom crlf raw state.1 with
      | none => .exit (some state.2)
      | some eol =>
        if headerEnd < eol then .exit (some state.2)
        else if eol = state.1 then .exit (some state.2)
        else
          match parseHeaderLine (substr raw state.1 (eol - state.1)) state.2 with
          | none => .exit none
          | some headers => .next (eol + 2, headers)
    else .exit (some state.2)
  measure state := headerEnd - state.1
  decreases state state' h := by
    split at h
    · rename_i hpos
      split at h
      · exact absurd h (by simp)
      · rename_i eol hfind
        have hle := le_of_findFrom hfind
        split at h
        · exact absurd h (by simp)
        · split at h
          · exact absurd h (by simp)
          · split at h
            · exact absurd h (by simp)
            · obtain rfl := Turn.next.inj h
              dsimp only
              omega
    · exact absurd h (by simp)

/-- The body length announced by `Content-Length`, or the status code that refuses its value. -/
def bodyLength (contentLength : Bytes) : Except ℕ ℕ :=
  if contentLength = [] then .ok 0
  else if contentLength.any (!isDigit ·) then .error 400
  -- `std::stoull` throws `out_of_range`
  else if 2 ^ 64 ≤ decimalValue contentLength then .error 400
  else if maxBody < decimalValue contentLength then .error 413
  else .ok (decimalValue contentLength)

/-- Steps 2 to 4 of `parse`: request line, header lines and the length of the body. -/
def parseHead (raw : Bytes) (headerEnd : ℕ) : Except ℕ (HttpRequest × ℕ) :=
  match find crlf raw with
  | none => .error 431
  | some lineEnd =>
    if maxRequestLine < lineEnd then .error 431
    else
      match parseRequestLine (substr raw 0 lineEnd) clear with
      | none => .error 400
      | some request =>
        match (headerLoop raw headerEnd).run (lineEnd + 2, request.headers) with
        | none => .error 400
        | some headers =>
          let request := { request with headers := headers }
          match bodyLength (request.getHeader (lit "Content-Length")) with
          | .error code => .error code
          | .ok bodyLen =>
            let te := request.getHeader (lit "Transfer-Encoding")
            if te ≠ [] ∧ te ≠ lit "identity" then .error 501
            else .ok (request, bodyLen)

def decideKeepAlive (request : HttpRequest) : Bool :=
  let conn := request.getHeader (lit "Connection")
  if request.version = lit "HTTP/1.1" then conn ≠ lit "close" else conn = lit "keep-alive"

def parse (raw : Bytes) : ParseOutcome :=
  match find blankLine raw with
  | none => if maxHeaderTotal < raw.length then .error 431 else .needMore
  | some headerEnd =>
    match parseHead raw headerEnd with
    | .error code => .error code
    | .ok (request, bodyLen) =>
      let consumed := headerEnd + 4 + bodyLen
      if raw.length < consumed then .needMore
      else
        .ok { request with
          body := substr raw (headerEnd + 4) bodyLen
          keepAlive := decideKeepAlive request } consumed

end HttpRequest

end WebServer
