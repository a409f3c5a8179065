import GoldenCircuit.Json.Printer
import GoldenCircuit.Json.Reader
import GoldenCircuit.Request

/-! Requests as JSON. A structure is written as an object. It is read from an object, whose unknown
members are passed over and whose known members occur at most once, or from an array of its fields
in order; in both a missing field has its default. -/
namespace GoldenCircuit.Request

open Json (Value CodeUnit)

/-! ### Writing -/

/-- Which family, as JSON. -/
def selectionToJson : Selection → Value
  | .index place => .ofMembers [("index", .natural place.toNat)]
  | .name name => .ofMembers [("name", .text name)]

/-- The argument string, as JSON. -/
def argsToJson : Option String → Value
  | some args => .text args
  | none => .null

def planToJson (plan : RunPlan) : Value :=
  .ofMembers [("cycles", .natural plan.cycles.toNat), ("seed", .natural plan.seed.toNat)]

def toJson (request : Request) : Value :=
  .ofMembers [("selection", selectionToJson request.selection), ("args", argsToJson request.args),
    ("format", .text request.format.name), ("run", planToJson request.plan)]

def render (request : Request) : String :=
  request.toJson.compact

/-! ### Reading -/

/-- A text, if the value is a string that is one. -/
def textOf? : Value → Option String
  | .string units => (Json.text? units).map String.ofList
  | _ => none

/-- A 64-bit word, if the value is a natural number that fits. -/
def wordOf? : Value → Option UInt64
  | .number number => do
    let value ← number.natural?
    if value < UInt64.size then some (UInt64.ofNat value) else none
  | _ => none

/-- The choice of a family: an object of exactly one member that says by what. -/
def selectionOf? : Value → Option Selection
  | .object [(name, value)] => do
    match String.ofList (← Json.text? name) with
    | "index" => return .index (← wordOf? value)
    | "name" => return .name (← textOf? value)
    | _ => none
  | _ => none

/-- An argument string, or the null that stands for none. -/
def argsOf? : Value → Option (Option String)
  | .null => some none
  | value => (textOf? value).map some

/-- A format: its name, or an object whose only member has that name and no value. -/
def formatOf? : Value → Option Format
  | .object [(name, .null)] => do Format.ofName? (String.ofList (← Json.text? name))
  | value => do Format.ofName? (← textOf? value)

/-- The way a field of a structure is read into it. -/
structure Field (Record : Type) where
  name : String
  read : Value → Record → Option Record

/-- Reads the members of an object into a record. Members that are no field are passed over. The
names in `met` are those of the fields that were given before; to give one of them again is
refused. -/
def readMembers {Record : Type} (fields : List (Field Record)) (met : List String) :
    List (List CodeUnit × Value) → Record → Option Record
  | [], record => some record
  | (name, value) :: members, record => do
    let name := String.ofList (← Json.text? name)
    match fields.find? (·.name == name) with
    | none => readMembers fields met members record
    | some field =>
      if name ∈ met then none
      else readMembers fields (name :: met) members (← field.read value record)

/-- Reads the items of an array into a record, field by field. There may be fewer items than
fields, but not more. -/
def readItems {Record : Type} : List (Field Record) → List Value → Record → Option Record
  | _, [], record => some record
  | [], _ :: _, _ => none
  | field :: fields, item :: items, record => do
    readItems fields items (← field.read item record)

/-- Reads a structure with these fields, over the defaults in `record`. -/
def readRecord {Record : Type} (fields : List (Field Record)) (record : Record) :
    Value → Option Record
  | .object members => readMembers fields [] members record
  | .array items => readItems fields items record
  | _ => none

def planFields : List (Field RunPlan) :=
  [⟨"cycles", fun value plan => return { plan with cycles := ← wordOf? value }⟩,
   ⟨"seed", fun value plan => return { plan with seed := ← wordOf? value }⟩]

def fields : List (Field Request) :=
  [⟨"selection", fun value request => return { request with selection := ← selectionOf? value }⟩,
   ⟨"args", fun value request => return { request with args := ← argsOf? value }⟩,
   ⟨"format", fun value request => return { request with format := ← formatOf? value }⟩,
   ⟨"run", fun value request =>
      return { request with plan := ← readRecord planFields default value }⟩]

def ofJson? (value : Value) : Option Request :=
  readRecord fields default value

def parse (text : String) : Except Fault Request :=
  match (Json.parse? text).bind ofJson? with
  | some request => .ok request
  | none => .error .malformedJson

end GoldenCircuit.Request
