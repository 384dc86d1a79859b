import GameFrame.Http.HttpRequest

/-!
# `HttpResponse`, and the text it is sent as

`http/http_response.h`. The headers are a hash table again, with keys as they
were given, and are written in the order of the list.
-/

namespace GameFrame

/-- `HttpResponse::StatusCode`. -/
inductive StatusCode where
  | k200Ok
  | k301MovedPermanently
  | k400BadRequest
  | k404NotFound
  | k500InternalError
  deriving DecidableEq, Repr

def StatusCode.toInt : StatusCode → Nat
  | .k200Ok => 200
  | .k301MovedPermanently => 301
  | .k400BadRequest => 400
  | .k404NotFound => 404
  | .k500InternalError => 500

structure HttpResponse where
  statusCode : StatusCode := .k200Ok
  statusMessage : List UInt8 := ascii "OK"
  closeConnection : Bool := false
  headers : Headers := []
  body : List UInt8 := []
  deriving DecidableEq, Repr

namespace HttpResponse

def crlf : List UInt8 := [13, 10]

/-- `set_content_type(type)`. -/
def setContentType (resp : HttpResponse) (type : List UInt8) : HttpResponse :=
  { resp with headers := resp.headers.assign (ascii "Content-Type") type }

/-- `add_header(key, value)`. -/
def addHeader (resp : HttpResponse) (key value : List UInt8) : HttpResponse :=
  { resp with headers := resp.headers.assign key value }

/-- `serialize()`. -/
def serialize (resp : HttpResponse) : List UInt8 :=
  ascii "HTTP/1.1 " ++ ascii (toString resp.statusCode.toInt) ++ ascii " " ++
    resp.statusMessage ++ crlf ++
    (if resp.closeConnection then ascii "Connection: close"
      else ascii "Connection: keep-alive") ++ crlf ++
    ascii "Content-Length: " ++ ascii (toString resp.body.length) ++ crlf ++
    resp.headers.flatMap (fun h => h.1 ++ ascii ": " ++ h.2 ++ crlf) ++
    crlf ++ resp.body

end HttpResponse

end GameFrame
