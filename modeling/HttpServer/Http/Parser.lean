import HttpServer.Lib.Loop
import HttpServer.Lib.Search
import HttpServer.Http.Request
import HttpServer.Http.Status

/-!
# The request parser

`HttpParser` is the state machine of `src/http/parser.cpp`. `feed` appends to
the buffer and runs the parse function of the current state until the state no
longer changes; `parseHeaders` consumes header lines in a loop of its own. Both
loops are `Loop.run` of their bodies: a header round erases at least three
bytes of the buffer, and a round of `feed` moves to a later state.
-/

namespace HttpServer

open ListSearch

inductive ParseState where
  | requestLine
  | headers
  | body
  | complete
  | error
  deriving DecidableEq, Repr

inductive ParseResult where
  | incomplete
  | complete
  | error
  deriving DecidableEq, Repr

def maxRequestLine : Nat := 8192
def maxHeaderSize : Nat := 8192
def maxTotalHeaders : Nat := 65536
def maxHeaderCount : Nat := 100
def maxBodySize : Nat := 1048576

structure HttpParser where
  buffer : Bytes := []
  state : ParseState := .requestLine
  request : Request := {}
  errorCode : StatusCode := .ok
  headersSize : Nat := 0
  headerCount : Nat := 0
  deriving DecidableEq

namespace HttpParser

def fail (p : HttpParser) (code : StatusCode) : HttpParser :=
  { p with state := .error, errorCode := code }

def parseRequestLine (p : HttpParser) : HttpParser :=
  match find crlf p.buffer with
  | none => if maxRequestLine < p.buffer.length then p.fail .uriTooLong else p
  | some pos =>
    if maxRequestLine < pos then p.fail .uriTooLong
    else
      let line := p.buffer.take pos
      match find [sp] line with
      | none => p.fail .badRequest
      | some mEnd =>
        match findFrom [sp] line (mEnd + 1) with
        | none => p.fail .badRequest
        | some tEnd =>
          let method := line.take mEnd
          let target := (line.drop (mEnd + 1)).take (tEnd - mEnd - 1)
          let version := line.drop (tEnd + 1)
          let p := { p with request := { p.request with method, target, version } }
          if method ≠ ascii "GET" ∧ method ≠ ascii "HEAD" ∧ method ≠ ascii "POST" ∧
              method ≠ ascii "DELETE" then
            p.fail .methodNotAllowed
          else if target.head? ≠ some slash then p.fail .badRequest
          else if version ≠ ascii "HTTP/1.1" then p.fail .badRequest
          else { p with buffer := p.buffer.drop (pos + 2), state := .headers }

/-- The body of the loop in `parse_headers`: `.inl` where it returns. -/
def parseHeaderLine (p : HttpParser) : HttpParser ⊕ HttpParser :=
  match find crlf p.buffer with
  | none =>
    if maxTotalHeaders < p.headersSize + p.buffer.length then .inl (p.fail .headerFieldsTooLarge)
    else .inl p
  | some pos =>
    if pos = 0 then .inl { p with buffer := p.buffer.drop 2, state := .body }
    else if maxHeaderSize < pos then .inl (p.fail .headerFieldsTooLarge)
    else if maxHeaderCount ≤ p.headerCount then .inl (p.fail .headerFieldsTooLarge)
    else
      let p := { p with headersSize := p.headersSize + (pos + 2) }
      if maxTotalHeaders < p.headersSize then .inl (p.fail .headerFieldsTooLarge)
      else
        let line := p.buffer.take pos
        match find [colon] line with
        | none => .inl (p.fail .badRequest)
        | some colonPos =>
          let name := line.take colonPos
          if (find [sp] name).isSome then .inl (p.fail .badRequest)
          else
            let value := line.drop (colonPos + 1)
            .inr { p with
              request := { p.request with
                headers := p.request.headers.insert (toLower name) (trim value) }
              headerCount := p.headerCount + 1
              buffer := p.buffer.drop (pos + 2) }

def parseHeaders (p : HttpParser) : HttpParser :=
  Loop.run parseHeaderLine (fun p => p.buffer.length) p

def parseBody (p : HttpParser) : HttpParser :=
  let expected := p.request.contentLength
  if maxBodySize < expected then p.fail .payloadTooLarge
  else if p.request.method = ascii "POST" ∧ ¬ p.request.hasHeader (ascii "content-length") then
    p.fail .badRequest
  else if expected ≤ p.buffer.length then
    { p with
      request := { p.request with body := p.buffer.take expected }
      buffer := p.buffer.drop expected
      state := .complete }
  else p

/-- The dispatch on the state in `feed`. -/
def parseStep (p : HttpParser) : HttpParser :=
  match p.state with
  | .requestLine => p.parseRequestLine
  | .headers => p.parseHeaders
  | .body => p.parseBody
  | .complete | .error => p

/-- The body of the loop in `feed`: it stops when the state has not changed. -/
def feedRound (p : HttpParser) : HttpParser ⊕ HttpParser :=
  if p.state = .complete ∨ p.state = .error then .inl p
  else if p.parseStep.state = p.state then .inl p.parseStep
  else .inr p.parseStep

/-- The states still ahead of the current one. -/
def rank (p : HttpParser) : Nat :=
  match p.state with
  | .requestLine => 3
  | .headers => 2
  | .body => 1
  | .complete | .error => 0

def result (p : HttpParser) : ParseResult :=
  match p.state with
  | .error => .error
  | .complete => .complete
  | _ => .incomplete

def feed (p : HttpParser) (data : Bytes) : HttpParser × ParseResult :=
  if p.state = .error then (p, .error)
  else if p.state = .complete then (p, .complete)
  else
    let p := Loop.run feedRound rank { p with buffer := p.buffer ++ data }
    (p, p.result)

/-- `get_request` moves the request out; the parser keeps an empty one. -/
def getRequest (p : HttpParser) : Request × HttpParser := (p.request, { p with request := {} })

def reset (_ : HttpParser) : HttpParser :=
  { buffer := [], state := .requestLine, request := {}, errorCode := .ok,
    headersSize := 0, headerCount := 0 }

end HttpParser

end HttpServer
