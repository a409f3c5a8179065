/-! Names and the values they stand for. A list of equations gives each name in turn a value that
depends on the names before it. -/
namespace GoldenCircuit

/-- Names and what they stand for, the name that was defined last in front. -/
abbrev Naming (Name : Type) := List (Name × Nat)

/-- A name and how its value follows from what is named already. -/
structure Equation (Name : Type) where
  name : Name
  value? : Naming Name → Option Nat

/-- Looking at all items of a list finds what looking at each of them finds. -/
theorem mapM_eq_some_map {Item Answer : Type} {look : Item → Option Answer} {find : Item → Answer}
    {items : List Item} (each : ∀ item ∈ items, look item = some (find item)) :
    items.mapM look = some (items.map find) := by
  induction items with
  | nil => rfl
  | cons item items ih =>
    have rest := ih fun other member => each other (List.mem_cons_of_mem _ member)
    simp [List.mapM_cons, each item List.mem_cons_self, rest]

/-- Reading all answers back gives the items again. -/
theorem mapM_map_eq_some {Item Answer : Type} {render : Item → Answer}
    {read : Answer → Option Item} {items : List Item}
    (back : ∀ item ∈ items, read (render item) = some item) :
    (items.map render).mapM read = some items := by
  have found := @mapM_eq_some_map _ _ (read ∘ render) id items back
  rwa [List.map_id, ← List.mapM_map] at found

namespace Naming

variable {Name : Type}

/-- Defines the names of equations, in order, if all of them have a value. -/
def solve : List (Equation Name) → Naming Name → Option (Naming Name)
  | [], known => some known
  | equation :: equations, known => do
    let value ← equation.value? known
    solve equations ((equation.name, value) :: known)

theorem solve_cons {equation : Equation Name} {known : Naming Name} {value : Nat}
    (has : equation.value? known = some value) (equations : List (Equation Name)) :
    solve (equation :: equations) known = solve equations ((equation.name, value) :: known) := by
  simp [solve, has]

variable [DecidableEq Name]

theorem lookup_cons_of_ne {name other : Name} (different : name ≠ other) (value : Nat)
    (known : Naming Name) : List.lookup name ((other, value) :: known) = known.lookup name := by
  rw [List.lookup_cons, beq_false_of_ne different]

/-- Where what a name stands for is settled by the name, it does not matter how often or in which
order the names were defined. -/
theorem lookup_of_forall {value : Name → Nat} {known : Naming Name}
    (each : ∀ pair ∈ known, pair.2 = value pair.1) {name : Name}
    (member : name ∈ known.map Prod.fst) : known.lookup name = some (value name) := by
  induction known with
  | nil => contradiction
  | cons pair known ih =>
    obtain ⟨first, settled⟩ := pair
    by_cases same : name = first
    · subst same
      rw [List.lookup_cons_self]
      exact congrArg some (each _ List.mem_cons_self)
    · rw [lookup_cons_of_ne same]
      apply ih fun other among => each other (List.mem_cons_of_mem _ among)
      simpa [same] using member

/-- Of names that are defined one after the other, and each once, every one stands for its value. -/
theorem lookup_reverse {pairs : Naming Name} (once : (pairs.map Prod.fst).Nodup) {name : Name}
    {value : Nat} (member : (name, value) ∈ pairs) (known : Naming Name) :
    (pairs.reverse ++ known).lookup name = some value := by
  induction pairs generalizing known with
  | nil => contradiction
  | cons pair pairs ih =>
    obtain ⟨once_here, once⟩ := List.nodup_cons.mp once
    rw [List.reverse_cons, List.append_assoc, List.singleton_append]
    rcases List.mem_cons.mp member with rfl | later
    · have undefined : pairs.reverse.lookup name = none := by
        rw [List.lookup_eq_none_iff]
        intro other among
        have different : name ≠ other.1 := fun same =>
          once_here (List.mem_map.mpr ⟨other, List.mem_reverse.mp among, same.symm⟩)
        simpa using different
      rw [List.lookup_append, undefined, Option.none_or, List.lookup_cons_self]
    · exact ih once later (pair :: known)

/-- Where every name is defined once, it does not matter in which order. -/
theorem lookup_reverse_self {pairs : Naming Name} (once : (pairs.map Prod.fst).Nodup)
    (name : Name) : pairs.reverse.lookup name = pairs.lookup name := by
  cases found : pairs.lookup name with
  | none => simpa [List.lookup_eq_none_iff] using found
  | some value =>
    obtain ⟨before, after, rfl, _⟩ := List.lookup_eq_some_iff.mp found
    simpa using lookup_reverse once (List.mem_append_right before List.mem_cons_self) []

theorem lookup_of_mem {pairs : Naming Name} (once : (pairs.map Prod.fst).Nodup) {name : Name}
    {value : Nat} (member : (name, value) ∈ pairs) : pairs.lookup name = some value := by
  rw [← lookup_reverse_self once, ← List.append_nil pairs.reverse]
  exact lookup_reverse once member []

end Naming
end GoldenCircuit
