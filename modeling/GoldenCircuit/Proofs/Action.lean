import GoldenCircuit.Action

/-! The state an action leaves behind, whether it succeeds or a fault stops it, and what an action
keeps true of the state in either case. -/
namespace GoldenCircuit.Action

variable {State Whole Part Answer Next : Type}

/-- The state an action leaves behind. -/
def after (action : Action State Answer) (state : State) : State :=
  match action state with
  | .ok _ left => left
  | .error _ left => left

theorem after_of_ok {action : Action State Answer} {state left : State} {answer : Answer}
    (run : action state = .ok answer left) : action.after state = left := by
  rw [after, run]

theorem after_of_error {action : Action State Answer} {state left : State} {fault : Fault}
    (run : action state = .error fault left) : action.after state = left := by
  rw [after, run]

/-- How an action ends. -/
def outcome (action : Action State Answer) (state : State) : Except Fault Answer :=
  match action state with
  | .ok answer _ => .ok answer
  | .error fault _ => .error fault

theorem outcome_of_ok {action : Action State Answer} {state left : State} {answer : Answer}
    (run : action state = .ok answer left) : action.outcome state = .ok answer := by
  rw [outcome, run]

theorem outcome_of_error {action : Action State Answer} {state left : State} {fault : Fault}
    (run : action state = .error fault left) : action.outcome state = .error fault := by
  rw [outcome, run]

theorem bind_of_ok {action : Action State Answer} {state left : State} {answer : Answer}
    (run : action state = .ok answer left) (next : Answer → Action State Next) :
    (action >>= next) state = next answer left := by
  simp only [bind, EStateM.bind, run]

theorem bind_of_error {action : Action State Answer} {state left : State} {fault : Fault}
    (run : action state = .error fault left) (next : Answer → Action State Next) :
    (action >>= next) state = .error fault left := by
  simp only [bind, EStateM.bind, run]

theorem bind_eq_ok_iff {action : Action State Answer} {next : Answer → Action State Next}
    {state left : State} {answer : Next} :
    (action >>= next) state = .ok answer left ↔
      ∃ first between, action state = .ok first between ∧ next first between = .ok answer left := by
  cases run : action state with
  | ok first between => simp [bind_of_ok run, and_assoc]
  | error fault between => simp [bind_of_error run]

theorem read_eq_ok_iff {look : Part → Except Fault Answer} {state left : Part} {answer : Answer} :
    read look state = .ok answer left ↔ look state = .ok answer ∧ left = state := by
  unfold read
  cases look state <;> simp [eq_comm]

theorem after_read (look : Part → Except Fault Answer) (state : Part) :
    (read look).after state = state := by
  unfold after read
  cases look state <;> rfl

theorem after_bind_read (action : Action State Answer) (look : State → Except Fault Next)
    (state : State) : (action >>= fun _ => read look).after state = action.after state := by
  cases run : action state with
  | ok answer left => rw [after, bind_of_ok run, after_of_ok run, ← after, after_read]
  | error fault left => rw [after_of_error (bind_of_error run _), after_of_error run]

theorem outcome_bind_read (action : Action State Answer) (look : State → Except Fault Next)
    (state : State) : (action >>= fun _ => read look).outcome state =
      (action.outcome state >>= fun _ => look (action.after state)) := by
  cases run : action state with
  | ok answer left =>
    rw [outcome, bind_of_ok run, outcome_of_ok run, after_of_ok run, read]
    cases look left <;> rfl
  | error fault left => rw [outcome_of_error (bind_of_error run _), outcome_of_error run]; rfl

theorem after_within (focus : Whole → Part × (Part → Whole)) (action : Action Part Answer)
    (whole : Whole) :
    (action.within focus).after whole = (focus whole).2 (action.after (focus whole).1) := by
  unfold after within
  cases run : action (focus whole).1 <;> simp only [run]

/-- Whatever the state and however it ends, the action keeps an invariant. -/
def Keeps (invariant : State → Prop) (action : Action State Answer) : Prop :=
  ∀ state, invariant state → invariant (action.after state)

theorem Keeps.pure {invariant : State → Prop} (answer : Answer) :
    Keeps invariant (Pure.pure answer : Action State Answer) :=
  fun _ holds => holds

theorem Keeps.bind {invariant : State → Prop} {action : Action State Answer}
    {next : Answer → Action State Next} (first : Keeps invariant action)
    (later : ∀ answer, Keeps invariant (next answer)) : Keeps invariant (action >>= next) := by
  intro state holds
  have kept := first state holds
  cases run : action state with
  | ok answer left =>
    rw [after_of_ok run] at kept
    rw [after, bind_of_ok run]
    exact later answer left kept
  | error fault left =>
    rw [after_of_error run] at kept
    rw [after, bind_of_error run]
    exact kept

theorem Keeps.read {invariant : State → Prop} (look : State → Except Fault Answer) :
    Keeps invariant (Action.read look) := by
  intro state holds
  rwa [after_read]

theorem Keeps.forM {Item : Type} {invariant : State → Prop} {body : Item → Action State PUnit}
    (each : ∀ item, Keeps invariant (body item)) (items : List Item) :
    Keeps invariant (items.forM body) := by
  induction items with
  | nil => exact Keeps.pure _
  | cons item items ih =>
    show Keeps invariant (body item >>= fun _ => items.forM body)
    exact (each item).bind fun _ => ih

/-- An action on a part keeps of the whole what it keeps of the part. -/
theorem Keeps.within {invariant : Part → Prop} {focus : Whole → Part × (Part → Whole)}
    (look : Whole → Part) (looked : ∀ whole, (focus whole).1 = look whole)
    (put : ∀ whole part, look ((focus whole).2 part) = part)
    {action : Action Part Answer} (kept : Keeps invariant action) :
    Keeps (fun whole => invariant (look whole)) (action.within focus) := by
  intro whole holds
  rw [after_within, put, looked]
  exact kept _ holds

end GoldenCircuit.Action
