import Mathlib.Data.List.AList
import HttpServer.Http.Text

/-!
# Requests

The header map of a request is an association list with one entry for each
key, standing for `std::unordered_map<std::string, std::string>`. The parser
stores names in lower case, so a lookup lower-cases the name it is given.
-/

namespace HttpServer

/-- `std::unordered_map<std::string, std::string>`. -/
abbrev HeaderMap := AList fun _ : Bytes => Bytes

@[ext]
structure Request where
  method : Bytes := []
  target : Bytes := []
  version : Bytes := []
  headers : HeaderMap := ∅
  body : Bytes := []
  deriving DecidableEq

namespace Request

/-- The value of a header, whatever the letter case of `name`. -/
def header (r : Request) (name : Bytes) : Option Bytes := r.headers.lookup (toLower name)

def hasHeader (r : Request) (name : Bytes) : Bool := (r.headers.lookup (toLower name)).isSome

/-- The declared body length; 0 when the header is absent or `std::stoull` throws. -/
def contentLength (r : Request) : Nat :=
  match r.header (ascii "content-length") with
  | some v => (stoull v).getD 0
  | none => 0

def shouldKeepAlive (r : Request) : Bool :=
  match r.header (ascii "connection") with
  | some v => if toLower v = ascii "close" then false else r.version == ascii "HTTP/1.1"
  | none => r.version == ascii "HTTP/1.1"

/-- The content length is read from the headers alone. -/
theorem contentLength_congr {r r' : Request} (h : r.headers = r'.headers) :
    r.contentLength = r'.contentLength := by
  simp [contentLength, header, h]

end Request

end HttpServer
