import GoldenCircuit.Fault

/-! Actions that change a state step by step and that a fault can stop half way. What was changed
before the fault stays changed, so an action answers with a state in either case. A state is handed
on and never kept besides, so that arrays in it can be changed in place. -/
namespace GoldenCircuit

abbrev Action (State : Type) := EStateM Fault State

namespace Action

variable {Whole Part Answer : Type}

/-- The action that goes to the next state, unless a fault forbids it: then nothing changes. -/
@[inline]
def attempt (fault? : Part → Option Fault) (next : Part → Part) : Action Part Unit :=
  fun state =>
    match fault? state with
    | some fault => .error fault state
    | none => .ok () (next state)

/-- The action that reads something off the state and leaves it alone. -/
@[inline]
def read (look : Part → Except Fault Answer) : Action Part Answer :=
  fun state =>
    match look state with
    | .ok answer => .ok answer state
    | .error fault => .error fault state

/-- Performs an action on a part of the state. The state is taken apart into that part and the way
back from it. -/
@[inline]
def within (focus : Whole → Part × (Part → Whole)) (action : Action Part Answer) :
    Action Whole Answer :=
  fun whole =>
    let (part, restore) := focus whole
    match action part with
    | .ok answer part => .ok answer (restore part)
    | .error fault part => .error fault (restore part)

end Action
end GoldenCircuit
