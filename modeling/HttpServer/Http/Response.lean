import HttpServer.Http.Request
import HttpServer.Http.Status

/-!
# Responses

The response record and the factories of `src/http/response.cpp`. Header names
keep the letter case they were set with.
-/

namespace HttpServer

structure Response where
  status : StatusCode := .ok
  headers : HeaderMap := ∅
  body : Bytes := []
  keepAlive : Bool := true
  deriving DecidableEq

namespace Response

def setHeader (r : Response) (key value : Bytes) : Response :=
  { r with headers := r.headers.insert key value }

def setBody (r : Response) (body contentType : Bytes) : Response :=
  { r with body }.setHeader (ascii "Content-Type") contentType

/-- `Response::ok(body)`, with the default content type. -/
def ok (body : Bytes) : Response :=
  { status := .ok : Response }.setBody body (ascii "text/plain")

/-- `Response::error(code, message)`. -/
def error (code : StatusCode) (message : Bytes) : Response :=
  if message ≠ [] then { status := code : Response }.setBody message (ascii "text/plain")
  else { status := code : Response }.setBody code.reasonPhrase (ascii "text/plain")

def makeResponse (code : StatusCode) : Response :=
  let res : Response := { status := code }
  if code ≠ .noContent then res.setBody code.reasonPhrase (ascii "text/plain") else res

def notFound : Response := error .notFound (ascii "Not Found")

def methodNotAllowed (allowedMethods : Bytes) : Response :=
  ({ status := .methodNotAllowed : Response }.setHeader (ascii "Allow") allowedMethods).setBody
    (ascii "Method Not Allowed") (ascii "text/plain")

@[simp] theorem setHeader_status (r : Response) (k v : Bytes) : (r.setHeader k v).status = r.status := rfl
@[simp] theorem setHeader_body (r : Response) (k v : Bytes) : (r.setHeader k v).body = r.body := rfl
@[simp] theorem setBody_status (r : Response) (b t : Bytes) : (r.setBody b t).status = r.status := rfl
@[simp] theorem setBody_body (r : Response) (b t : Bytes) : (r.setBody b t).body = b := rfl

@[simp] theorem error_status (code : StatusCode) (message : Bytes) :
    (error code message).status = code := by
  unfold error
  split <;> rfl

@[simp] theorem methodNotAllowed_lookup (allow : Bytes) :
    (methodNotAllowed allow).headers.lookup (ascii "Allow") = some allow := by
  unfold methodNotAllowed setBody setHeader
  dsimp only
  rw [AList.lookup_insert_ne (by decide), AList.lookup_insert]

end Response

end HttpServer
