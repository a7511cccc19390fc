/-! Errors of script execution and of pool operations. -/
namespace MechanicsCore

inductive MechanicsError
  | execution (msg : String)
  | queueFull (msg : String)
  | queueTimeout (msg : String)
  | runTimeout (msg : String)
  | poolClosed (msg : String)
  | workerUnavailable (msg : String)
  | canceled (msg : String)
  | panic (msg : String)
  | runtimePool (msg : String)
  deriving DecidableEq,Repr

end MechanicsCore
