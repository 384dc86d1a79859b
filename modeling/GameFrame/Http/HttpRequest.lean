/-!
# `HttpRequest`, what the parser fills in

`http/http_request.h`. Strings are byte strings. The headers are a hash table
in the source, with keys in lower case; here they are a list with at most one
entry for a key, and its order means nothing. `std::tolower` is that of the
"C" locale.
-/

namespace GameFrame

/-- The bytes of a literal. -/
def ascii (s : String) : List UInt8 :=
  s.toList.map fun c => UInt8.ofNat c.toNat

/-- `HttpRequest::Method`. -/
inductive HttpMethod where
  | kInvalid
  | kGet
  | kPost
  | kHead
  | kPut
  | kDelete
  deriving DecidableEq, Repr

/-- `HttpRequest::Version`. -/
inductive HttpVersion where
  | kUnknown
  | kHttp10
  | kHttp11
  deriving DecidableEq, Repr

/-- Some entries of a hash table. -/
abbrev Headers := List (List UInt8 × List UInt8)

/-- `headers_[key] = value`. -/
def Headers.assign (key value : List UInt8) : Headers → Headers
  | [] => [(key, value)]
  | (k, v) :: entries =>
      if k = key then (key, value) :: entries
      else (k, v) :: assign key value entries

/-- `headers_.find(key)`. -/
def Headers.lookup (key : List UInt8) (hs : Headers) : Option (List UInt8) :=
  (hs.find? fun entry => entry.1 = key).map (·.2)

structure HttpRequest where
  method : HttpMethod := .kInvalid
  version : HttpVersion := .kUnknown
  path : List UInt8 := []
  query : List UInt8 := []
  headers : Headers := []
  deriving DecidableEq, Repr

/-- `method_string()`. -/
def HttpMethod.string : HttpMethod → List UInt8
  | .kGet => ascii "GET"
  | .kPost => ascii "POST"
  | .kHead => ascii "HEAD"
  | .kPut => ascii "PUT"
  | .kDelete => ascii "DELETE"
  | .kInvalid => ascii "INVALID"

def toLower (c : UInt8) : UInt8 := if 65 ≤ c ∧ c ≤ 90 then c + 32 else c

namespace HttpRequest

/-- `set_method(m)`. -/
def setMethod (req : HttpRequest) (m : List UInt8) : HttpRequest :=
  { req with
    method :=
      if m = ascii "GET" then .kGet
      else if m = ascii "POST" then .kPost
      else if m = ascii "HEAD" then .kHead
      else if m = ascii "PUT" then .kPut
      else if m = ascii "DELETE" then .kDelete
      else .kInvalid }

/-- `add_header(key, value)`. -/
def addHeader (req : HttpRequest) (key value : List UInt8) : HttpRequest :=
  { req with headers := req.headers.assign (key.map toLower) value }

/-- `get_header(key)`. -/
def getHeader (req : HttpRequest) (key : List UInt8) : List UInt8 :=
  (req.headers.lookup key).getD []

/-- `keep_alive()`. -/
def keepAlive (req : HttpRequest) : Bool :=
  let conn := req.getHeader (ascii "connection")
  if req.version = .kHttp11 then conn ≠ ascii "close"
  else conn = ascii "keep-alive"

/-- `reset()`. -/
def reset (req : HttpRequest) : HttpRequest :=
  { req with
    method := .kInvalid
    version := .kUnknown
    path := []
    query := []
    headers := [] }

end HttpRequest

end GameFrame
