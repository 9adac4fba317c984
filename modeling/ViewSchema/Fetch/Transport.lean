import ViewSchema.Fetch.Timeline

/-!
# Transports

Transports that answer requests from a list, and the check that one to a real
network makes before it sends anything: a request has to name a method.
-/

namespace ViewSchema

namespace Method

/-- Marks that a method may hold beside letters and digits. -/
def marks : List Char :=
  ['!', '#', '$', '%', '&', '\'', '*', '+', '-', '.', '^', '_', '\x60', '|', '~']

/-- Whether a text is a method: a nonempty token. -/
def isToken (text : String) : Bool :=
  text != "" && text.toList.all fun c => c.isAlphanum || marks.contains c

/-- Why a request with a method that is none fails. -/
def refusal (text : String) : FetchError := .network ("invalid method " ++ text)

end Method

namespace Transport

/-- A transport that answers requests in order; the last reply repeats. -/
def scripted (replies : List Reply) : Transport := fun sent _ =>
  (replies[min sent (replies.length - 1)]?).getD ⟨0, .ok ⟨200, [], ""⟩⟩

/-- A transport that some requests were sent over before. -/
def after (transport : Transport) (before : Nat) : Transport := fun sent request =>
  transport (before + sent) request

/-- A transport that refuses requests whose method is none, and does so at once. -/
def checked (transport : Transport) : Transport := fun sent request =>
  if Method.isToken request.method then transport sent request
  else ⟨0, .error (Method.refusal request.method)⟩

end Transport

end ViewSchema
