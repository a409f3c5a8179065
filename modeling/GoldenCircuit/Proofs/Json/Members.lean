import GoldenCircuit.Json.Basic
import GoldenCircuit.Proofs.Naming

/-! JSON values taken apart by what they should be: a text, a natural number, items, or members by
their names. -/
namespace GoldenCircuit.Json

theorem text?_units (text : String) : text? (units text) = some text.toList := by
  have chars (list : List Char) : text? (list.map .char) = some list := by
    induction list with
    | nil => rfl
    | cons char list ih => simp [text?, ih]
  exact chars text.toList

theorem units_injective : Function.Injective units := by
  intro one other same
  have spelt := congrArg text? same
  rw [text?_units, text?_units, Option.some.injEq] at spelt
  exact String.toList_inj.mp spelt

@[simp]
theorem units_beq (one other : String) : (units one == units other) = (one == other) := by
  rw [Bool.eq_iff_iff, beq_iff_eq, beq_iff_eq, units_injective.eq_iff]

namespace Value

/-- The text that a string spells. -/
def text? : Value → Option String
  | .string units => (Json.text? units).map String.ofList
  | _ => none

def natural? : Value → Option Nat
  | .number written => written.natural?
  | _ => none

def items? : Value → Option (List Value)
  | .array items => some items
  | _ => none

/-- The members of an object. Their names have to be texts. -/
def members? : Value → Option (List (String × Value))
  | .object members => members.mapM fun (name, value) => do
    return (String.ofList (← Json.text? name), value)
  | _ => none

theorem members?_cons_eq_some_iff {name : List CodeUnit} {value : Value}
    {raw : List (List CodeUnit × Value)} {members : List (String × Value)} :
    (Value.object ((name, value) :: raw)).members? = some members ↔
      ∃ chars others, Json.text? name = some chars ∧ (Value.object raw).members? = some others ∧
        members = (String.ofList chars, value) :: others := by
  rw [members?, members?, List.mapM_cons]
  cases text : Json.text? name with
  | none => simp [text]
  | some chars =>
    simp [text, Option.bind_eq_some_iff, @eq_comm _ members]

theorem text?_text (text : String) : (Value.text text).text? = some text := by
  simp [Value.text, text?, text?_units]

theorem members?_ofMembers (members : List (String × Value)) :
    (Value.ofMembers members).members? = some members :=
  mapM_map_eq_some fun _ _ => by simp [Json.text?_units]

end Value

end GoldenCircuit.Json
