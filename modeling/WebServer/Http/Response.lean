import WebServer.Http.Bytes

/-!
# Responses

`HttpResponse` collects a status, headers and a body and serializes them. A file response is marked
by `setFile`; its body is sent from the file, so only its headers are serialized.
-/

namespace WebServer

open Bytes

structure HttpResponse where
  statusCode : ℕ
  statusMessage : Bytes
  version : Bytes
  headers : StringMap
  body : Bytes
  hasFile : Bool
  filePath : Bytes

namespace HttpResponse

/-- A response as its constructor leaves it. -/
def new : HttpResponse where
  statusCode := 200
  statusMessage := lit "OK"
  version := lit "HTTP/1.1"
  headers := ∅
  body := []
  hasFile := false
  filePath := []

/-- The reason phrase of `setStatus`. -/
def reasonPhrase (code : ℕ) : Bytes :=
  match code with
  | 200 => lit "OK"
  | 400 => lit "Bad Request"
  | 404 => lit "Not Found"
  | 405 => lit "Method Not Allowed"
  | 413 => lit "Payload Too Large"
  | 431 => lit "Request Header Fields Too Large"
  | 501 => lit "Not Implemented"
  | _ => lit "Unknown"

def setStatus (response : HttpResponse) (code : ℕ) : HttpResponse :=
  { response with statusCode := code, statusMessage := reasonPhrase code }

def addHeader (response : HttpResponse) (key value : Bytes) : HttpResponse :=
  { response with headers := response.headers.insert key value }

def setBody (response : HttpResponse) (body : Bytes) : HttpResponse :=
  { response with body := body }.addHeader (lit "Content-Length") (decimal body.length)

def setFile (response : HttpResponse) (path : Bytes) : HttpResponse :=
  { response with hasFile := true, filePath := path }

def statusLine (response : HttpResponse) : Bytes :=
  response.version ++ lit " " ++ decimal response.statusCode ++ lit " " ++ response.statusMessage

def headerLine (header : Bytes × Bytes) : Bytes := header.1 ++ lit ": " ++ header.2

/-- Status line, headers and blank line, without the body. -/
def toStringHeaders (response : HttpResponse) : Bytes :=
  response.statusLine ++ crlf ++
    response.headers.toList.flatMap (fun header ↦ headerLine header ++ crlf) ++ crlf

def toString (response : HttpResponse) : Bytes := response.toStringHeaders ++ response.body

end HttpResponse

end WebServer
