import HttpServer.Http.Lines
import HttpServer.Http.Response

/-!
# Serialization

The text of a response is its head, an empty line and its body. The first five
lines of the head are fixed by the status, the date, the body's length and the
`keepAlive` flag; the response's own headers follow in the iteration order of
the map, without those the serializer has written itself.
-/

namespace HttpServer

/-- What the C++ library decides: the text of `format_date` when response number `k` of a
connection is written, and the iteration order of a header map. -/
structure Platform where
  formatDate : Nat → Bytes
  date_clean : ∀ k, ∀ c ∈ formatDate k, c ≠ 13 ∧ c ≠ 10
  order : HeaderMap → List (Bytes × Bytes)
  order_perm : ∀ m, (order m).Perm (m.entries.map fun e => (e.1, e.2))

/-- A clock that stands still, and maps that iterate as they were filled. -/
def Platform.still : Platform where
  formatDate _ := ascii "Thu, 01 Jan 1970 00:00:00 GMT"
  date_clean _ := by decide +kernel
  order m := m.entries.map fun e => (e.1, e.2)
  order_perm _ := .refl _

/-- The names the serializer writes itself. -/
def ownNames : List Bytes :=
  [ascii "server", ascii "date", ascii "content-length", ascii "connection"]

/-- `HttpSerializer::serialize` for response number `k` of a connection. -/
def serialize (w : Platform) (k : Nat) (r : Response) : Bytes :=
  ascii "HTTP/1.1 " ++ toString r.status.toNat ++ ascii " " ++ r.status.reasonPhrase ++ crlf ++
  ascii "Server: httpserver/1.0\r\n" ++
  (ascii "Date: " ++ w.formatDate k ++ crlf) ++
  (ascii "Content-Length: " ++ toString r.body.length ++ crlf) ++
  (if r.keepAlive then ascii "Connection: keep-alive\r\n" else ascii "Connection: close\r\n") ++
  (w.order r.headers).flatMap (fun (key, value) =>
    if !ownNames.contains (toLower key) then key ++ ascii ": " ++ value ++ crlf else []) ++
  crlf ++ r.body

/-! ## The head as lines -/

/-- Lines with a line end behind each. -/
def joinLines (ls : List Bytes) : Bytes := ls.flatMap (· ++ crlf)

@[simp] theorem joinLines_nil : joinLines [] = [] := rfl

@[simp] theorem joinLines_cons (l : Bytes) (ls : List Bytes) :
    joinLines (l :: ls) = l ++ crlf ++ joinLines ls := rfl

@[simp] theorem joinLines_append (a b : List Bytes) :
    joinLines (a ++ b) = joinLines a ++ joinLines b := by
  simp [joinLines]

namespace Response

def statusLine (r : Response) : Bytes :=
  ascii "HTTP/1.1 " ++ toString r.status.toNat ++ ascii " " ++ r.status.reasonPhrase

def connectionLine (r : Response) : Bytes :=
  if r.keepAlive then ascii "Connection: keep-alive" else ascii "Connection: close"

/-- The lines every response starts with. -/
def fixedLines (w : Platform) (k : Nat) (r : Response) : List Bytes :=
  [r.statusLine, ascii "Server: httpserver/1.0", ascii "Date: " ++ w.formatDate k,
    ascii "Content-Length: " ++ toString r.body.length, r.connectionLine]

/-- The lines for the response's own headers. -/
def headerLines (w : Platform) (r : Response) : List Bytes :=
  ((w.order r.headers).filter fun e => !ownNames.contains (toLower e.1)).map fun e => e.1 ++ ascii ": " ++ e.2

def headText (w : Platform) (k : Nat) (r : Response) : Bytes :=
  joinLines (r.fixedLines w k) ++ joinLines (r.headerLines w)

end Response

theorem joinLines_filter (es : List (Bytes × Bytes)) :
    joinLines ((es.filter fun e => !ownNames.contains (toLower e.1)).map fun e => e.1 ++ ascii ": " ++ e.2) =
      es.flatMap (fun (key, value) =>
        if !ownNames.contains (toLower key) then key ++ ascii ": " ++ value ++ crlf else []) := by
  induction es with
  | nil => rfl
  | cons e es ih =>
    by_cases own : toLower e.1 ∈ ownNames
    · simpa [own] using ih
    · simpa [own] using ih

theorem serialize_head (w : Platform) (k : Nat) (r : Response) :
    serialize w k r = r.headText w k ++ crlf ++ r.body := by
  have server : ascii "Server: httpserver/1.0\r\n" = ascii "Server: httpserver/1.0" ++ crlf := by decide
  have keep : ascii "Connection: keep-alive\r\n" = ascii "Connection: keep-alive" ++ crlf := by decide
  have close : ascii "Connection: close\r\n" = ascii "Connection: close" ++ crlf := by decide
  unfold serialize Response.headText Response.headerLines
  rw [joinLines_filter, server, keep, close]
  cases h : r.keepAlive <;>
    simp [Response.fixedLines, Response.statusLine, Response.connectionLine, h]

theorem serialize_pos (w : Platform) (k : Nat) (r : Response) : 0 < (serialize w k r).length := by
  rw [serialize_head]
  simp [crlf]

end HttpServer
