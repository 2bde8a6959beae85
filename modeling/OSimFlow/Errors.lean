/-!
# Python exceptions, as far as the campaign tells them apart

`except Exception` is the line that matters: it stops every error of the
package, the checkpoint abort and the pause signal included, and lets
through what derives from `BaseException` only — a cancellation error of
`concurrent.futures` and the interpreter's own interrupts.
-/

namespace OSimFlow

/-- A raised exception with its `str(error)`. -/
inductive PyError where
  /-- Any ordinary `Exception`. -/
  | exception (message : String)
  /-- `PostResultBookkeepingError`: the bookkeeping after a result failed. -/
  | postResultBookkeepingError (message : String)
  /-- `CampaignAbortError`: the third checkpoint in a row failed. -/
  | campaignAbortError (message : String)
  /-- `CampaignPauseRequested`. -/
  | campaignPauseRequested (message : String)
  /-- `concurrent.futures.CancelledError`, a `BaseException`. -/
  | cancelledError (message : String)
  /-- `KeyboardInterrupt` or `SystemExit`. -/
  | keyboardInterrupt (message : String)
deriving DecidableEq, Repr

namespace PyError

/-- `str(error)`. -/
def str : PyError → String
  | exception m | postResultBookkeepingError m | campaignAbortError m
  | campaignPauseRequested m | cancelledError m | keyboardInterrupt m => m

/-- `str(error)[:500]`, as every failure record stores it. -/
def summary (error : PyError) : String :=
  (error.str.take 500).toString

/-- `isinstance(error, Exception)`: what `except Exception` catches. -/
def isException : PyError → Bool
  | cancelledError _ | keyboardInterrupt _ => false
  | _ => true

/-- `isinstance(error, PostResultBookkeepingError)`. -/
def isBookkeeping : PyError → Bool
  | postResultBookkeepingError _ => true
  | _ => false

/-- `isinstance(error, CampaignAbortError)`. -/
def isAbort : PyError → Bool
  | campaignAbortError _ => true
  | _ => false

/-- `isinstance(error, (KeyboardInterrupt, SystemExit))`. -/
def isInterrupt : PyError → Bool
  | keyboardInterrupt _ => true
  | _ => false

end PyError

end OSimFlow
