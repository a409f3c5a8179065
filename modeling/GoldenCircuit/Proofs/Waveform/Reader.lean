import GoldenCircuit.Text.Numeral
import GoldenCircuit.Proofs.Text.Words

/-! A reader of value change dumps. It takes a dump word by word, as the format defines it, and
looks values up by sample and hold. It does not know how dumps are written. -/
namespace GoldenCircuit.Waveform

structure Declaration where
  identifier : String
  width : Nat
  name : String
deriving DecidableEq

/-- What stands after the declarations. An unknown value is none. -/
inductive Item where
  | close
  | mark (time : Nat)
  | assign (identifier : String) (value : Option Nat)
deriving DecidableEq

/-- A dump as it is read: the values before the first point in time, and those after it. -/
structure Dump where
  timescale : String
  scope : String
  declarations : List Declaration
  initial : List Item
  body : List Item
deriving DecidableEq

def scalar? : Char → Option (Option Nat)
  | '0' => some (some 0)
  | '1' => some (some 1)
  | 'x' => some none
  | _ => none

/-- The value of a vector of bits, the most significant first. -/
def vector? (bits : List Char) : Option (Option Nat) :=
  if bits = ['x'] then
    some none
  else if !bits.isEmpty && bits.all (fun bit => bit = '0' || bit = '1') then
    some (some (Nat.ofDigitChars 2 bits 0))
  else
    none

/-- The declarations at the front of some words, and the words after them. -/
def readDeclarations : List String → Option (List Declaration × List String)
  | "$var" :: "wire" :: width :: identifier :: name :: "$end" :: words => do
    let width ← Text.natural? width.toList
    let (others, words) ← readDeclarations words
    return ({ identifier, width, name } :: others, words)
  | words => some ([], words)

/-- The items that words spell. The word after a vector is an identifier, whatever its characters
are, and so is what follows the first character of a scalar. -/
def readItems : List String → Option (List Item)
  | [] => some []
  | word :: words =>
    if word = "$end" then
      (readItems words).map (.close :: ·)
    else
      match word.toList with
      | '#' :: digits => do
        let time ← Text.natural? digits
        (readItems words).map (.mark time :: ·)
      | 'b' :: bits =>
        match words with
        | identifier :: words => do
          let value ← vector? bits
          (readItems words).map (.assign identifier value :: ·)
        | [] => none
      | bit :: identifier => do
        let value ← scalar? bit
        (readItems words).map (.assign (String.ofList identifier) value :: ·)
      | [] => none

/-- The initial values end where the first section ends. -/
def splitInitial (items : List Item) : Option (List Item × List Item) :=
  match items.dropWhile (· ≠ .close) with
  | .close :: body => some (items.takeWhile (· ≠ .close), body)
  | _ => none

def read (text : String) : Option Dump :=
  match Text.words text with
  | "$timescale" :: timescale :: "$end" :: "$scope" :: "module" :: scope :: "$end" :: words => do
    let (declarations, words) ← readDeclarations words
    match words with
    | "$upscope" :: "$end" :: "$enddefinitions" :: "$end" :: "$dumpvars" :: words => do
      let items ← readItems words
      let (initial, body) ← splitInitial items
      return { timescale, scope, declarations, initial, body }
    | _ => none
  | _ => none

def Item.time? : Item → Option Nat
  | .mark time => some time
  | _ => none

/-- The value of a signal at a time: the last one that it takes before a mark of a later time. -/
def follow (identifier : String) (time : Nat) : (held : Option Nat) → List Item → Option Nat
  | held, [] => held
  | held, .close :: items => follow identifier time held items
  | held, .mark later :: items => if later ≤ time then follow identifier time held items else held
  | held, .assign changed value :: items =>
    follow identifier time (if changed = identifier then value else held) items

namespace Dump

def finalTime? (dump : Dump) : Option Nat :=
  (dump.body.filterMap Item.time?).getLast?

def valueAt (dump : Dump) (index time : Nat) : Option Nat :=
  dump.declarations[index]?.bind fun declaration =>
    follow declaration.identifier time none (dump.initial ++ dump.body)

end Dump
end GoldenCircuit.Waveform
