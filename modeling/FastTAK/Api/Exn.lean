import Mathlib

/-!
# Exceptions of the monitor

The kinds of exceptions the monitor's handlers tell apart, with the texts they
carry.
-/

namespace FastTAK.Api

/-- An exception on its way to a handler.  `httpError` is any `httpx.HTTPError`
(a transport failure or a bad status); `external` is an exception of a client
library that no handler of the monitor names, such as a Docker API error. -/
inductive Exn where
  | http (status : ℕ) (detail : String)
  | httpError
  | runtimeError (text : String)
  | valueError (text : String)
  | typeError
  | attributeError
  | overflowError
  | external
  deriving DecidableEq, Repr

end FastTAK.Api
