/-! Texts made of lines, each of which ends in a line feed. -/
namespace GoldenCircuit.Text

def unlines (lines : List String) : String :=
  String.join (lines.map (· ++ "\n"))

/-- The opening and the closing brace. -/
def openBrace : String := "\x7b"

@[inherit_doc openBrace]
def closeBrace : String := "\x7d"

end GoldenCircuit.Text
