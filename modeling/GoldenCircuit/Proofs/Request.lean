import GoldenCircuit.Proofs.Json.Members
import GoldenCircuit.Proofs.Json.RoundTrip
import GoldenCircuit.Request.Json

/-! Requests read back from their texts. Each part of a request is read back from its JSON value
first, then the structures that hold the parts, member by member, and last the text. -/
namespace GoldenCircuit

theorem Format.ofName?_name (format : Format) : ofName? format.name = some format := by
  cases format <;> decide

namespace Request

open Json (Value)

/-! ### The parts -/

theorem textOf?_text (text : String) : textOf? (.text text) = some text := by
  simp [Value.text, textOf?, Json.text?_units]

theorem wordOf?_natural (word : UInt64) : wordOf? (.natural word.toNat) = some word := by
  have natural : Json.Number.natural? { whole := word.toNat } = some word.toNat := rfl
  simp [Value.natural, wordOf?, natural, word.toNat_lt_size]

theorem selectionOf?_selectionToJson (selection : Selection) :
    selectionOf? (selectionToJson selection) = some selection := by
  cases selection with
  | index place =>
    simp [selectionToJson, Value.ofMembers, selectionOf?, Json.text?_units, wordOf?_natural]
  | name name =>
    simp [selectionToJson, Value.ofMembers, selectionOf?, Json.text?_units, textOf?_text]

/-- No argument string is taken for the null that stands for none, whatever it spells. -/
theorem argsOf?_argsToJson (args : Option String) : argsOf? (argsToJson args) = some args := by
  cases args with
  | none => rfl
  | some args => exact congrArg (Option.map some) (textOf?_text args)

theorem formatOf?_text (format : Format) : formatOf? (.text format.name) = some format := by
  have read := textOf?_text format.name
  show (textOf? (.text format.name) >>= Format.ofName?) = some format
  rw [read]
  exact format.ofName?_name

/-! ### The structures -/

theorem readRecord_planToJson (plan : RunPlan) :
    readRecord planFields default (planToJson plan) = some plan := by
  simp [planToJson, Value.ofMembers, readRecord, readMembers, planFields, Json.text?_units,
    wordOf?_natural]

theorem ofJson?_toJson (request : Request) : ofJson? request.toJson = some request := by
  rw [ofJson?, toJson, Value.ofMembers, readRecord]
  simp [readMembers, fields, Json.text?_units, selectionOf?_selectionToJson, argsOf?_argsToJson,
    formatOf?_text, readRecord_planToJson]

/-- Whatever is asked for, the request reads back from its text as it is. -/
theorem parse_render (request : Request) : parse request.render = .ok request := by
  simp [parse, render, Json.parse?_compact, ofJson?_toJson]

end Request
end GoldenCircuit
