/-! How much is logged, by the number of times more was asked for. -/
namespace GoldenCircuit

/-- The least serious kind of message that is still logged. -/
inductive LogLevel where
  | warn
  | info
  | debug
  | trace
deriving DecidableEq

namespace LogLevel

/-- Each request for more shows one more kind of message; beyond the third nothing is left to
show. -/
def ofVerbosity : Nat → LogLevel
  | 0 => .warn
  | 1 => .info
  | 2 => .debug
  | _ => .trace

def directive : LogLevel → String
  | .warn => "warn"
  | .info => "info"
  | .debug => "debug"
  | .trace => "trace"

end LogLevel
end GoldenCircuit
