import GoldenCircuit.AndTree

/-! Families of circuits and the ordered catalog they are chosen from. -/
namespace GoldenCircuit

/-- A family of circuits. -/
structure Family where
  name : String
  /-- Argument strings that regression runs should exercise. -/
  examples : List String
  /-- The circuit that is built without arguments. -/
  standard : Specimen
  /-- The circuit that an argument string describes. -/
  ofArgs : String → Except Fault Specimen

def AndTree.family : Family where
  name := familyName
  examples := examples
  standard := AndTree.standard.specimen
  ofArgs args := (ofArgs args).map AndTree.specimen

/-- Which family of a catalog is meant. -/
inductive Selection where
  | index (place : UInt64)
  | name (name : String)
deriving DecidableEq

instance : Inhabited Selection := ⟨.index 0⟩

/-- The known families, in the order in which they were linked. Names may be repeated; the first
family of a name is the one that is found by it. -/
structure Catalog where
  families : List Family

namespace Catalog

/-- No families. -/
def empty : Catalog :=
  ⟨[]⟩

def link (catalog : Catalog) (family : Family) : Catalog :=
  ⟨catalog.families ++ [family]⟩

def linkBuiltin (catalog : Catalog) : Catalog :=
  catalog.link AndTree.family

def builtin : Catalog :=
  empty.linkBuiltin

instance : Inhabited Catalog := ⟨builtin⟩

def size (catalog : Catalog) : Nat :=
  catalog.families.length

/-- The names of the families, in order. -/
def names (catalog : Catalog) : List String :=
  catalog.families.map (·.name)

def get (catalog : Catalog) (index : Nat) : Except Fault Family :=
  match catalog.families[index]? with
  | some family => .ok family
  | none => .error (.familyOutOfRange index catalog.size)

/-- The place of the first family of a name. -/
def position? (catalog : Catalog) (name : String) : Option Nat :=
  catalog.families.findIdx? (·.name == name)

/-- The first family of a name. -/
def find (catalog : Catalog) (name : String) : Except Fault Family :=
  match catalog.families.find? (·.name == name) with
  | some family => .ok family
  | none => .error (.unknownFamily name)

def select (catalog : Catalog) : Selection → Except Fault Family
  | .index place => catalog.get place.toNat
  | .name name => catalog.find name

/-- A circuit of the family that is meant, from an argument string if there is one. -/
def instantiate (catalog : Catalog) (selection : Selection) (args : Option String) :
    Except Fault Specimen := do
  let family ← catalog.select selection
  match args with
  | some args => family.ofArgs args
  | none => return family.standard

end Catalog
end GoldenCircuit
