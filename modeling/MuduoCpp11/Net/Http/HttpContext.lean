import MuduoCpp11.Base.Timestamp
import MuduoCpp11.Lib.Outcome
import Mathlib.Data.List.DropRight

/-! # Requests and parse contexts

`HttpRequest` is filled field by field while the bytes of a request arrive; `HttpContext` adds how far
the parser has come. `set_method` asserts that the method has not been set before. `swap` exchanges
every field but the version, so `Reset` leaves the version of the last request behind, and takes the
peer's address away with the rest (`request_reset`). -/

namespace MuduoCpp11.Net.Http

open MuduoCpp11.Base MuduoCpp11.Lib

/-- A character string of the source as bytes. -/
def ascii (s : String) : List UInt8 := s.toList.map fun c => c.toNat.toUInt8

inductive Method where
  | kInvalid | kGet | kPost | kHead | kPut | kDelete
  deriving DecidableEq, Repr

inductive Version where
  | kUnknown | kHttp10 | kHttp11
  deriving DecidableEq, Repr

structure HttpRequest where
  method : Method := .kInvalid
  version : Version := .kUnknown
  path : List UInt8 := []
  query : List UInt8 := []
  remoteAddr : List UInt8 := []
  receivetime : Timestamp := {}
  headers : Std.ExtTreeMap (List UInt8) (List UInt8) := ∅
  deriving DecidableEq

/-- The method a token names. -/
def methodOf (m : List UInt8) : Method :=
  if m = ascii "GET" then .kGet
  else if m = ascii "POST" then .kPost
  else if m = ascii "HEAD" then .kHead
  else if m = ascii "PUT" then .kPut
  else if m = ascii "DELETE" then .kDelete
  else .kInvalid

/-- The map that fields leave when they are entered one after the other. -/
def headerMap (fields : List (List UInt8 × List UInt8)) : Std.ExtTreeMap (List UInt8) (List UInt8) :=
  fields.foldl (fun m f => m.insert f.1 f.2) ∅

/-- `isspace` in the C locale. -/
def isspace (c : UInt8) : Bool := c = 32 || (9 ≤ c && c ≤ 13)

namespace HttpRequest

variable (r : HttpRequest)

/-- `set_method`: the request afterwards, and whether the method is a known one. -/
def setMethod (m : List UInt8) : Outcome (HttpRequest × Bool) :=
  if r.method = .kInvalid then
    .returned ({ r with method := methodOf m }, methodOf m ≠ .kInvalid)
  else .aborted

def setPath (p : List UInt8) : HttpRequest := { r with path := p }

def setQuery (q : List UInt8) : HttpRequest := { r with query := q }

def setVersion (v : Version) : HttpRequest := { r with version := v }

def setRemoteAddr (a : List UInt8) : HttpRequest := { r with remoteAddr := a }

def setReceivetime (t : Timestamp) : HttpRequest := { r with receivetime := t }

/-- `AddHeader(start, colon, end)` on the line from `start` to `end`, `colon` as an offset. -/
def addHeader (line : List UInt8) (colon : ℕ) : HttpRequest :=
  let field := line.take colon
  let value := ((line.drop (colon + 1)).dropWhile isspace).rdropWhile isspace
  { r with headers := r.headers.insert field value }

def getHeader (field : List UInt8) : List UInt8 := (r.headers[field]?).getD []

/-- `swap`: both versions stay where they are. -/
def swap (that : HttpRequest) : HttpRequest × HttpRequest :=
  ({ r with
      method := that.method, path := that.path, query := that.query
      remoteAddr := that.remoteAddr, receivetime := that.receivetime, headers := that.headers },
    { that with
      method := r.method, path := r.path, query := r.query
      remoteAddr := r.remoteAddr, receivetime := r.receivetime, headers := r.headers })

/-- The request without the time it was received at. -/
def eraseTime : HttpRequest := { r with receivetime := {} }

end HttpRequest

inductive HttpRequestParseState where
  | kExpectRequestLine | kExpectHeaders | kExpectBody | kGotAll
  deriving DecidableEq, Repr

structure HttpContext where
  state : HttpRequestParseState
  request : HttpRequest
  deriving DecidableEq

namespace HttpContext

/-- `HttpContext(remote_addr)` -/
def new (remoteAddr : List UInt8) : HttpContext :=
  ⟨.kExpectRequestLine, ({} : HttpRequest).setRemoteAddr remoteAddr⟩

variable (ctx : HttpContext)

def expectRequestLine : Bool := ctx.state = .kExpectRequestLine

def expectHeaders : Bool := ctx.state = .kExpectHeaders

def expectBody : Bool := ctx.state = .kExpectBody

def gotAll : Bool := ctx.state = .kGotAll

def receiveRequestLine : HttpContext := { ctx with state := .kExpectHeaders }

def receiveHeaders : HttpContext := { ctx with state := .kGotAll }

def reset : HttpContext := ⟨.kExpectRequestLine, (ctx.request.swap {}).1⟩

/-- Apply a function to the request. -/
def modify (f : HttpRequest → HttpRequest) : HttpContext := { ctx with request := f ctx.request }

/-- The context without the time the request was received at. -/
def eraseTime : HttpContext := ctx.modify HttpRequest.eraseTime

/-- `Reset` keeps the version and nothing else. -/
theorem request_reset : ctx.reset.request = { version := ctx.request.version } := rfl

end HttpContext

end MuduoCpp11.Net.Http
