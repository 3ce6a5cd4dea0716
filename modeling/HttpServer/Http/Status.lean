import HttpServer.Http.Text

/-!
# Status codes
-/

namespace HttpServer

inductive StatusCode where
  | ok
  | noContent
  | badRequest
  | forbidden
  | notFound
  | methodNotAllowed
  | payloadTooLarge
  | uriTooLong
  | headerFieldsTooLarge
  | internalServerError
  | serviceUnavailable
  deriving DecidableEq, Repr

namespace StatusCode

/-- `static_cast<int>(code)`. -/
def toNat : StatusCode → Nat
  | ok => 200
  | noContent => 204
  | badRequest => 400
  | forbidden => 403
  | notFound => 404
  | methodNotAllowed => 405
  | payloadTooLarge => 413
  | uriTooLong => 414
  | headerFieldsTooLarge => 431
  | internalServerError => 500
  | serviceUnavailable => 503

/-- `reason_phrase(code)`. -/
def reasonPhrase : StatusCode → Bytes
  | ok => ascii "OK"
  | noContent => ascii "No Content"
  | badRequest => ascii "Bad Request"
  | forbidden => ascii "Forbidden"
  | notFound => ascii "Not Found"
  | methodNotAllowed => ascii "Method Not Allowed"
  | payloadTooLarge => ascii "Payload Too Large"
  | uriTooLong => ascii "URI Too Long"
  | headerFieldsTooLarge => ascii "Request Header Fields Too Large"
  | internalServerError => ascii "Internal Server Error"
  | serviceUnavailable => ascii "Service Unavailable"

end StatusCode

end HttpServer
