import GameFrame.Http.HttpRequest
import GameFrame.Util.Buffer

/-!
# `HttpContext`, the parser of one connection

`http/http_context.h`: a line at a time, first the one of the request, then
headers until an empty one, and then nothing more until it is reset. A line
that is not complete is left in the buffer, and the state says what it is
going to be. Bodies are not parsed.
-/

namespace GameFrame

/-- `HttpContext::ParseState`. -/
inductive ParseState where
  | kExpectRequestLine
  | kExpectHeaders
  | kGotAll
  deriving DecidableEq, Repr

structure HttpContext where
  state : ParseState := .kExpectRequestLine
  request : HttpRequest := {}
  deriving DecidableEq, Repr

/-- `string_view::find(c, pos)`. -/
def findByte (line : List UInt8) (c : UInt8) (pos : Nat) : Option Nat :=
  ((line.drop pos).findIdx? (· == c)).map (· + pos)

namespace HttpContext

/-- `got_all()`. -/
def gotAll (ctx : HttpContext) : Bool := ctx.state = .kGotAll

/-- `reset()`. -/
def reset (ctx : HttpContext) : HttpContext where
  state := .kExpectRequestLine
  request := ctx.request.reset

/-- The path and the query of a URI. -/
def setUri (req : HttpRequest) (uri : List UInt8) : HttpRequest :=
  match findByte uri 63 0 with
  | some q => { req with path := uri.take q, query := uri.drop (q + 1) }
  | none => { req with path := uri }

/-- `parse_request_line(line)`. What was set before an error stays set. -/
def parseRequestLine (ctx : HttpContext) (line : List UInt8) :
    Bool × HttpContext :=
  match findByte line 32 0 with
  | none => (false, ctx)
  | some sp1 =>
      let req := ctx.request.setMethod (line.take sp1)
      if req.method = .kInvalid then (false, { ctx with request := req })
      else
        match findByte line 32 (sp1 + 1) with
        | none => (false, { ctx with request := req })
        | some sp2 =>
            let uri := (line.drop (sp1 + 1)).take (sp2 - sp1 - 1)
            let req := setUri req uri
            let ver := line.drop (sp2 + 1)
            if ver = ascii "HTTP/1.1" then
              (true, { ctx with request := { req with version := .kHttp11 } })
            else if ver = ascii "HTTP/1.0" then
              (true, { ctx with request := { req with version := .kHttp10 } })
            else (false, { ctx with request := req })

/-- `parse_header(line)`. -/
def parseHeader (ctx : HttpContext) (line : List UInt8) : Bool × HttpContext :=
  match findByte line 58 0 with
  | none => (false, ctx)
  | some colon =>
      let value := (line.drop (colon + 1)).dropWhile (· == 32)
      (true, { ctx with request := ctx.request.addHeader (line.take colon) value })

/-- `parse(buf)`: the verdict, the parser, and what is left in the buffer. -/
def parse (ctx : HttpContext) (buf : Buffer) : Bool × HttpContext × Buffer :=
  match ctx.state with
  | .kGotAll => (true, ctx, buf)
  | .kExpectRequestLine =>
      match _h : buf.findCrlf with
      | none => (true, ctx, buf)
      | some crlf =>
          match ctx.parseRequestLine (buf.readable.take crlf) with
          | (false, ctx) => (false, ctx, buf)
          | (true, ctx) =>
              parse { ctx with state := .kExpectHeaders }
                (buf.retrieveUntil (crlf + 2))
  | .kExpectHeaders =>
      match _h : buf.findCrlf with
      | none => (true, ctx, buf)
      | some crlf =>
          let line := buf.readable.take crlf
          if line = [] then
            (true, { ctx with state := .kGotAll }, buf.retrieveUntil (crlf + 2))
          else
            match ctx.parseHeader line with
            | (false, ctx) => (false, ctx, buf)
            | (true, ctx) => parse ctx (buf.retrieveUntil (crlf + 2))
termination_by buf.readableBytes
decreasing_by
  · exact Buffer.readableBytes_retrieveUntil_lt _h
  · exact Buffer.readableBytes_retrieveUntil_lt _h

/-- Appending `chunk` and calling `parse`, chunk after chunk until it refuses
or has a request: the verdict, the parser, the buffer, and the chunks not
reached. -/
def parseChunks : HttpContext → Buffer → List (List UInt8) →
    Bool × HttpContext × Buffer × List (List UInt8)
  | ctx, buf, [] => (true, ctx, buf, [])
  | ctx, buf, chunk :: chunks =>
      match ctx.parse (buf.append chunk) with
      | (false, ctx, buf) => (false, ctx, buf, chunks)
      | (true, ctx, buf) =>
          if ctx.gotAll then (true, ctx, buf, chunks)
          else parseChunks ctx buf chunks

end HttpContext

end GameFrame
