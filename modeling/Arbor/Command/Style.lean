/-! # Coloured output

Text for terminals is wrapped in the codes that switch a style on and all styles off. Where the text
switches styles off itself, the style is switched on again right after. -/

namespace Arbor.Command

inductive Style where
  | bold
  | dimmed
  | green
  | yellow
  | cyan
  deriving DecidableEq

namespace Style

def code : Style → String
  | .bold => "1"
  | .dimmed => "2"
  | .green => "32"
  | .yellow => "33"
  | .cyan => "36"

def start (style : Style) : List Char := ("\x1b[" ++ style.code ++ "m").toList

def reset : List Char := "\x1b[0m".toList

/-- The text with the opening repeated after each reset in it. -/
def reopen (opening : List Char) : List Char → List Char
  | '\x1b' :: '[' :: '0' :: 'm' :: rest => reset ++ opening ++ reopen opening rest
  | c :: rest => c :: reopen opening rest
  | [] => []

/-- The text in a style, or as it is where output has no colours. -/
def paint (style : Style) (coloured : Bool) (text : String) : String :=
  if coloured then String.ofList (style.start ++ reopen style.start text.toList ++ reset) else text

end Style
end Arbor.Command
