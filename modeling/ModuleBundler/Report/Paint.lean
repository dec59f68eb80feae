/-!
# Colored text

A terminal takes style from control sequences in the text. A painted text starts with the sequence
of its style and ends with the one that clears all styles. Where the text itself clears all styles,
its own style is set again, so that the rest of it keeps the look.
-/

namespace ModuleBundler

/-- The look of a text on a terminal. -/
inductive Paint where
  /-- In bold letters. -/
  | bold
  /-- In faint letters. -/
  | faint
  /-- In blue. -/
  | blue
  /-- In bright blue. -/
  | brightBlue
  /-- In cyan. -/
  | cyan
  /-- In yellow. -/
  | yellow
  /-- In bold letters and yellow. -/
  | boldYellow
  /-- In bold letters and green. -/
  | boldGreen
  /-- In bold letters and bright white. -/
  | boldWhite
  deriving DecidableEq, Repr

namespace Paint

/-- The numbers that set a look. -/
def codes : Paint → String
  | .bold => "1"
  | .faint => "2"
  | .blue => "34"
  | .brightBlue => "94"
  | .cyan => "36"
  | .yellow => "33"
  | .boldYellow => "1;33"
  | .boldGreen => "1;32"
  | .boldWhite => "1;97"

/-- The sequence that sets a look. -/
def setting (paint : Paint) : String :=
  "\x1b[" ++ paint.codes ++ "m"

/-- The sequence that clears all styles. -/
def clearing : String := "\x1b[0m"

/-- A text with `again` behind each sequence that clears all styles. -/
def setAgain (again : List Char) : List Char → List Char
  | '\x1b' :: '[' :: '0' :: 'm' :: rest => clearing.toList ++ again ++ setAgain again rest
  | c :: rest => c :: setAgain again rest
  | [] => []

/-- A text in a look. -/
def apply (paint : Paint) (text : String) : String :=
  paint.setting ++ String.ofList (setAgain paint.setting.toList text.toList) ++ clearing

end Paint

/-- Whether output is colored. -/
inductive Coloring where
  /-- It is. -/
  | colored
  /-- It is not. -/
  | plain
  deriving DecidableEq, Repr, Inhabited

namespace Coloring

/-- A text in a look, where the output is colored. -/
def paint : Coloring → Paint → String → String
  | .colored, paint, text => paint.apply text
  | .plain, _, text => text

/-- Whether a variable of the environment says yes: any value but `0` does. -/
def saysYes (value : String) : Bool :=
  value != "0"

/-- Whether output is colored, by the variables that force colors, forbid them and ask for them. If
none of them decides, a terminal gets colors. -/
def ofEnvironment (force forbid ask : Option String) (isTerminal : Bool) : Coloring :=
  if force.any saysYes then .colored
  else if forbid.isSome then .plain
  else if (ask.map saysYes).getD true && isTerminal then .colored
  else .plain

end Coloring

end ModuleBundler
