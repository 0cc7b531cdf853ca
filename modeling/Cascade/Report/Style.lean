import Cascade.Number.Decimal
import Cascade.Report.Line

/-!
Styles of a report's roles: a theme names them in words, and a line is written with the codes that a
terminal of sixteen colours reads.
-/

namespace Cascade

/-- The look of a run of text. -/
structure Style where
  bold : Bool
  dim : Bool
  italic : Bool
  underline : Bool
  foreground : Option Nat
  background : Option Nat
  deriving DecidableEq

namespace Style

def plain : Style := ⟨false, false, false, false, none, none⟩

/-- The names of the colours in the order of their codes. -/
def colours : List String :=
  ["black", "red", "green", "yellow", "blue", "magenta", "cyan", "white"]

def colour? (name : String) : Option Nat :=
  colours.findIdx? (· == name)

/-- Adds what a list of words says: attributes, a colour, and a colour of the ground after `on`. -/
def addWords (style : Style) : List String → Style
  | [] => style
  | "on" :: name :: rest =>
      addWords { style with background := (colour? name).or style.background } rest
  | word :: rest =>
      let next :=
        if word = "bold" || word = "b" then { style with bold := true }
        else if word = "dim" || word = "d" then { style with dim := true }
        else if word = "italic" || word = "i" then { style with italic := true }
        else if word = "underline" || word = "u" then { style with underline := true }
        else { style with foreground := (colour? word).or style.foreground }
      addWords next rest

def ofText (text : String) : Style :=
  let words := (Text.Pieces.split ' ' text.toList).filter fun word => !word.isEmpty
  addWords plain (words.map fun word => String.ofList (word.map Char.toLower))

/-- The codes of a style: attributes, colour, colour of the ground. -/
def codes (style : Style) : List Nat :=
  (if style.bold then [1] else []) ++ (if style.dim then [2] else []) ++
    (if style.italic then [3] else []) ++ (if style.underline then [4] else []) ++
    (style.foreground.map (30 + ·)).toList ++ (style.background.map (40 + ·)).toList

/-- A text in a style, between the codes that start and end it. -/
def write (style : Style) (text : String) : String :=
  if style.codes.isEmpty then text
  else "\x1b[" ++ joined ";" (style.codes.map fun code => String.ofList (Decimal.digitsOf code)) ++ "m" ++
    text ++ "\x1b[0m"

end Style

namespace Role

/-- The roles that a theme describes, by name. -/
def named : List (String × Role) :=
  [("message", .message), ("warning", .warning), ("error", .error), ("success", .success),
    ("pre_run_title", .preRunTitle), ("post_run_title", .postRunTitle), ("timing", .timing),
    ("menu_header", .menuHeader), ("menu_group", .menuGroup), ("menu_name", .menuName),
    ("menu_help", .menuHelp)]

def ofName? (name : String) : Option Role :=
  (named.find? fun entry => entry.1 = name).map Prod.snd

end Role

/-- The description of the style of each role. -/
abbrev Theme := Role → String

namespace Theme

/-- The theme that reports have unless another is asked for. -/
def standard : Theme
  | .plain => ""
  | .message => ""
  | .warning => "yellow"
  | .error => "red"
  | .success => "bold red on green"
  | .preRunTitle => "bold magenta"
  | .postRunTitle => "white on blue"
  | .timing => "dim"
  | .menuHeader => "bold"
  | .menuGroup => "white on blue"
  | .menuName => "yellow"
  | .menuHelp => "green"

/-- The theme with the style of one role replaced. -/
def set (role : Role) (description : String) (theme : Theme) : Theme := fun other =>
  if other = role then description else theme other

end Theme

/-- A line written for a terminal with colours. -/
def Line.styledText (theme : Theme) (line : Line) : String :=
  joined "\n" (line.printedRows.map fun row =>
    String.join (row.map fun span => (Style.ofText (theme span.role)).write span.text))

end Cascade
