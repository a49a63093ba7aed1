import MuduoCpp11.Net.Buffer
import MuduoCpp11.Net.Http.HttpContext

/-! # The HTTP server: request parsing and dispatch

`ProcessRequestLine`, `ParseRequest` and the handlers of one connection. Pointers into a line are
offsets, `std::find` is `List.idxOf` (the length of the range when nothing is found).

The `while` loop of `ParseRequest` is `parseRequestLoop`, one unit of fuel a turn. A turn that
continues has taken a line with its CRLF out of the buffer, unless the context waits for a body or is
complete; so `parseRequest` gives the loop one turn more than the buffer has bytes, and a loop that
has used them up is one that never ends (`Parse.parseRequestLoop_view`). -/

namespace MuduoCpp11.Net.Http

open MuduoCpp11.Base MuduoCpp11.Lib

/-- The target of a request line up to its first `'?'` is the path, the rest is the query. -/
def setTarget (request : HttpRequest) (target : List UInt8) : HttpRequest :=
  let question := target.idxOf 63
  if question ≠ target.length then
    (request.setPath (target.take question)).setQuery (target.drop question)
  else request.setPath target

/-- `ProcessRequestLine` on the line from `begin` to `end`: whether it succeeds, and the context. -/
def processRequestLine (line : List UInt8) (context : HttpContext) : Outcome (Bool × HttpContext) :=
  let space := line.idxOf 32
  if space ≠ line.length then
    (context.request.setMethod (line.take space)).bind fun (request, known) =>
      if known then
        let start := line.drop (space + 1)
        let space := start.idxOf 32
        if space ≠ start.length then
          let request := setTarget request (start.take space)
          let start := start.drop (space + 1)
          if start.length = 8 ∧ start.take 7 = ascii "HTTP/1." then
            if start[7]? = some 49 then
              .returned (true, { context with request := request.setVersion .kHttp11 })
            else if start[7]? = some 48 then
              .returned (true, { context with request := request.setVersion .kHttp10 })
            else .returned (false, { context with request })
          else .returned (false, { context with request })
        else .returned (false, { context with request })
      else .returned (false, { context with request })
  else .returned (false, context)

/-- What `ParseRequest` leaves: its result, the buffer and the context. -/
structure Parsed where
  ok : Bool
  buf : Buffer
  context : HttpContext

/-- One turn of the loop of `ParseRequest`, with the value of `has_more` behind it. -/
def parseRequestTurn (p : Parsed) (receivetime : Timestamp) : Outcome (Bool × Parsed) :=
  if p.context.expectRequestLine then
    match p.buf.findCRLF with
    | some crlf =>
      (processRequestLine (p.buf.peek.take crlf) p.context).bind fun (ok, context) =>
        if ok then
          let context := context.modify (·.setReceivetime receivetime)
          .returned (true, ⟨ok, p.buf.retrieveUntil (crlf + 2), context.receiveRequestLine⟩)
        else .returned (false, ⟨ok, p.buf, context⟩)
    | none => .returned (false, p)
  else if p.context.expectHeaders then
    match p.buf.findCRLF with
    | some crlf =>
      let line := p.buf.peek.take crlf
      let colon := line.idxOf 58
      if colon ≠ crlf then
        let context := p.context.modify (·.addHeader line colon)
        .returned (true, { p with buf := p.buf.retrieveUntil (crlf + 2), context })
      else
        let context := p.context.receiveHeaders
        .returned (!context.gotAll, { p with buf := p.buf.retrieveUntil (crlf + 2), context })
    | none => .returned (false, p)
  else if p.context.expectBody then .returned (true, p)
  else .returned (true, p)

def parseRequestLoop (receivetime : Timestamp) : ℕ → Parsed → Outcome Parsed
  | 0, _ => .diverges
  | fuel + 1, p =>
    (parseRequestTurn p receivetime).bind fun (hasMore, p) =>
      if hasMore then parseRequestLoop receivetime fuel p else .returned p

def parseRequest (buf : Buffer) (context : HttpContext) (receivetime : Timestamp) :
    Outcome Parsed :=
  parseRequestLoop receivetime (buf.readableBytes + 1) ⟨true, buf, context⟩

/-! ### The handlers of a connection -/

/-- The server's side of one connection: its context and its input buffer. -/
structure HttpConnection where
  context : HttpContext
  inputBuffer : Buffer

/-- What a handler does to the outside. -/
inductive HttpAction where
  | send (message : List UInt8)
  | shutdown
  | httpCallback (request : HttpRequest) (keepalive : Bool)
  deriving DecidableEq

/-- `OnConnection` for a peer at `ip`; the input buffer of a new connection is empty. -/
def onConnection (ip : List UInt8) : HttpConnection := ⟨HttpContext.new ip, Buffer.new⟩

/-- `OnRequest` hands the request over with a response that keeps the connection or closes it. -/
def onRequest (req : HttpRequest) : HttpAction :=
  let connection := req.getHeader (ascii "Connection")
  let close := connection = ascii "close" ∨
    (req.version = .kHttp10 ∧ connection ≠ ascii "Keep-Alive")
  .httpCallback req (¬ close)

def onMessage (conn : HttpConnection) (receiveTime : Timestamp) :
    Outcome (HttpConnection × List HttpAction) :=
  (parseRequest conn.inputBuffer conn.context receiveTime).map fun p =>
    let bad := if p.ok then [] else
      [HttpAction.send (ascii "HTTP/1.1 400 Bad Request\r\n\r\n"), .shutdown]
    if p.context.gotAll then
      (⟨p.context.reset, p.buf⟩, bad ++ [onRequest p.context.request])
    else (⟨p.context, p.buf⟩, bad)

/-- Bytes as they arrive, with the time of the poll that reported them. -/
structure Chunk where
  data : List UInt8
  time : Timestamp := {}
  deriving DecidableEq

/-- A chunk is appended to the input buffer, then `OnMessage` is called. -/
def deliver (conn : HttpConnection) (c : Chunk) : Outcome (HttpConnection × List HttpAction) :=
  onMessage { conn with inputBuffer := conn.inputBuffer.append c.data } c.time

/-- The chunks one after the other, with everything the handler does. -/
def deliverAll (conn : HttpConnection) : List Chunk → Outcome (HttpConnection × List HttpAction)
  | [] => .returned (conn, [])
  | c :: cs => (deliver conn c).bind fun r =>
    (deliverAll r.1 cs).map fun r' => (r'.1, r.2 ++ r'.2)

end MuduoCpp11.Net.Http
