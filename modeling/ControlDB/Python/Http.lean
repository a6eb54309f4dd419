import ControlDB.Python.CanonicalJson

/-!
# HTTP messages

What the SDKs hand to the HTTP client and what comes back, and the answer of a handler that returns
a value or raises.
-/

namespace ControlDB
namespace Http

open Library Python

/-- The body of a response: nothing, a JSON document, or bytes that are not one. -/
inductive Content
  | empty
  | json (doc : PyJson)
  | text (s : String)

structure Response where
  status : Nat
  statusText : String
  content : Content

structure HttpRequest where
  method : String
  path : String
  jsonBody : Option PyJson
  /-- The `Idempotency-Key` header. -/
  idempotencyKey : Option PyJson

/-- What one attempt comes to: a response, an `httpx.HTTPError`, or any other exception of the HTTP
client.  In TypeScript `fetch` rejects in both of the last two. -/
inductive Exchange
  | answered (resp : Response)
  | httpError (reason : String)
  | raised (reason : String)

/-- The text of a status in the answers below. -/
def reasonPhrase (status : Nat) : String :=
  if status = 200 then "OK"
  else if status = 403 then "Forbidden"
  else if status = 404 then "Not Found"
  else if status = 422 then "Unprocessable Entity"
  else "Internal Server Error"

/-- A handler that returned a document. -/
def Response.ok (doc : PyJson) : Response :=
  { status := 200, statusText := reasonPhrase 200, content := .json doc }

/-- An `HTTPException`, whose answer has its `detail`. -/
def Response.exception (status : Nat) (detail : PyJson) : Response :=
  { status := status
    statusText := reasonPhrase status
    content := .json (.obj [("detail", detail)]) }

/-- Any other exception of a handler, or one raised while its answer was encoded. -/
def Response.serverError : Response :=
  { status := 500, statusText := reasonPhrase 500, content := .text "Internal Server Error" }

end Http
end ControlDB
