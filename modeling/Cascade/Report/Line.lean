import Cascade.Text.Columns
import Cascade.Text.Pieces

/-!
Lines of a report: runs of text, each in the role it plays. A line is printed without the controls
that move or ring a terminal, and with its tabs as spaces.
-/

namespace Cascade

/-- The part that a run of text plays in a report. -/
inductive Role
  | plain
  | message
  | warning
  | error
  | success
  | preRunTitle
  | postRunTitle
  | timing
  | menuHeader
  | menuGroup
  | menuName
  | menuHelp
  deriving DecidableEq

/-- A run of text in one role. -/
structure Span where
  role : Role
  text : String
  deriving DecidableEq

/-- A line of a report; its text may itself hold line breaks. -/
abbrev Line := List Span

namespace Line

def of (role : Role) (text : String) : Line :=
  [⟨role, text⟩]

/-- A bell, a backspace, a vertical tab, a form feed or a carriage return. -/
def isDropped (character : Char) : Bool :=
  let code := character.toNat
  code == 7 || code == 8 || (11 ≤ code && code ≤ 13)

/-- The rows of a line, cut at its line breaks; there is always at least one. -/
def rows : Line → List Line
  | [] => [[]]
  | span :: rest =>
      match Text.Pieces.split '\n' span.text.toList, rows rest with
      | pieces, first :: others =>
          let spans := pieces.map fun piece => Span.mk span.role (String.ofList piece)
          spans.dropLast.map (fun piece => [piece]) ++
            ((spans.getLast?.toList ++ first) :: others)
      | _, [] => []

/-- Replaces the tabs of a run of text by spaces, from a column on. Each tab ends a span of its own.
Gives the spans and the column after them. -/
def expandSpan (role : Role) (column : Nat) (pending : List Char) : List Char → List Span × Nat
  | [] => ([⟨role, String.ofList pending.reverse⟩], column)
  | character :: rest =>
      if character = '\t' then
        let spaces := Text.Columns.stop - column % Text.Columns.stop
        let written := pending.reverse ++ List.replicate spaces ' '
        let (spans, last) := expandSpan role (column + spaces) [] rest
        (⟨role, String.ofList written⟩ :: spans, last)
      else expandSpan role (column + Text.Columns.width character) (character :: pending) rest

/-- Replaces the tabs of a row by spaces, from a column on. -/
def expandRow (column : Nat) : Line → Line
  | [] => []
  | span :: rest =>
      let (spans, last) := expandSpan span.role column [] span.text.toList
      spans ++ expandRow last rest

/-- The characters of a text that are printed. -/
def kept (text : String) : String :=
  String.ofList (text.toList.filter fun character => !isDropped character)

/-- The rows of a line as they are printed, without empty spans. -/
def printedRows (line : Line) : List Line :=
  (rows (line.map fun span => ⟨span.role, kept span.text⟩)).map fun row =>
    (expandRow 0 row).filter fun span => !span.text.isEmpty

/-- The text of a line as it is printed. -/
def text (line : Line) : String :=
  joined "\n" (line.printedRows.map fun row => String.join (row.map Span.text))

end Line

end Cascade
