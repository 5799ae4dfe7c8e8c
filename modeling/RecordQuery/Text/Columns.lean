/-
RecordQuery.Text.Columns — text of a fixed width, and styles.

Widths count characters. A text that is too long for its column ends in three
dots; a text that is too short is followed by spaces. Styles wrap a text in
escape sequences of the terminal and are left out where there are no colours.

Main definitions:
* `clip`, `padTo`;
* `Style`, `paint`.
-/

namespace RecordQuery

/-- The first `width` characters; of a longer text three fewer, and three dots. -/
def clip (width : Nat) (text : List Char) : List Char :=
  if width < text.length then text.take (width - 3) ++ ['.', '.', '.'] else text

/-- As many spaces as a text of the given length needs to fill a column. -/
def filler (length width : Nat) : List Char := List.replicate (width - length) ' '

/-- A text with spaces behind it up to a width. -/
def padTo (width : Nat) (text : List Char) : List Char := text ++ filler text.length width

/-- How a piece of text is shown. -/
inductive Style where
  | success
  | failure
  | warning
  | faint
  | title
  deriving DecidableEq

/-- An escape sequence of the terminal with one number. -/
def escapeSequence (code : List Char) : List Char := '\x1b' :: '[' :: (code ++ ['m'])

/-- The escape sequences in front of a text. -/
def Style.opening : Style → List Char
  | .success => escapeSequence ['3', '2']
  | .failure => escapeSequence ['3', '1']
  | .warning => escapeSequence ['3', '3']
  | .faint => escapeSequence ['2']
  | .title => escapeSequence ['1'] ++ escapeSequence ['3', '2']

/-- The escape sequences behind a text. -/
def Style.closing : Style → List Char
  | .success | .failure | .warning => escapeSequence ['3', '9']
  | .faint => escapeSequence ['0']
  | .title => escapeSequence ['3', '9'] ++ escapeSequence ['0']

/-- A text in a style, if there are colours. -/
def paint (colors : Bool) (style : Style) (text : List Char) : List Char :=
  if colors then style.opening ++ (text ++ style.closing) else text

end RecordQuery
