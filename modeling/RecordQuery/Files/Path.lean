/-
RecordQuery.Files.Path — path texts and their parts.

A path is a text whose pieces stand between slashes. Its parent, its last name
and its extension are found in the text alone: slashes at the end and pieces
that are a single dot say nothing there. A text that begins with a slash is
absolute.

Main definitions:
* `Path`, `Path.names`, `Path.join`;
* `Path.parent?`, `Path.ancestors`, `Path.fileName?`, `Path.withExtension`.
-/

namespace RecordQuery

/-- The text that names a file or directory. -/
structure Path where
  text : String
  deriving DecidableEq, Inhabited

namespace Path

/-- The pieces of a text between its slashes. -/
def pieces : List Char → List (List Char)
  | [] => [[]]
  | c :: cs =>
    if c = '/' then [] :: pieces cs
    else
      match pieces cs with
      | [] => [[c]]
      | piece :: rest => (c :: piece) :: rest

/-- The pieces that are not empty. -/
def names (path : Path) : List String :=
  ((pieces path.text.toList).filter fun piece => !piece.isEmpty).map String.ofList

def isAbsolute (path : Path) : Bool := path.text.toList.head? == some '/'

/-- The text ends in a slash. -/
def endsInSlash (path : Path) : Bool := path.text.toList.getLast? == some '/'

/-- A path that is read from a directory on. -/
def join (base path : Path) : Path :=
  if path.isAbsolute then path
  else if base.text.isEmpty || base.endsInSlash then ⟨base.text ++ path.text⟩
  else ⟨base.text ++ "/" ++ path.text⟩

/-! ## Parts of the text -/

/-- The start of a text that is no name: the root, or a dot that stands first. -/
def start : List Char → List Char
  | '/' :: _ => ['/']
  | ['.'] => ['.']
  | '.' :: '/' :: _ => ['.']
  | _ => []

/-- A reversed text from its last piece on that is neither empty nor a single dot. -/
def fromLastName : List Char → List Char
  | [] => []
  | ['.'] => []
  | '.' :: '/' :: reversed => fromLastName reversed
  | '/' :: reversed => fromLastName reversed
  | reversed => reversed

/-- The text behind the start up to its last name, reversed. -/
def reversedBody (path : Path) : List Char :=
  let chars := path.text.toList
  fromLastName (chars.drop (start chars).length).reverse

/-- A reversed text without its last piece and the slash before it. -/
def withoutLast (reversed : List Char) : List Char :=
  (reversed.dropWhile fun c => c != '/').drop 1

/-- The path of the directory that holds a file. The root and the empty path have none. -/
def parent? (path : Path) : Option Path :=
  let first := start path.text.toList
  match path.reversedBody with
  | [] => if first = ['.'] then some ⟨""⟩ else none
  | reversed => some ⟨String.ofList (first ++ (fromLastName (withoutLast reversed)).reverse)⟩

/-- The path and the parents above it, at most as many as the bound. -/
def climb : (bound : Nat) → Path → List Path
  | 0, _ => []
  | bound + 1, path => path :: (path.parent?.map (climb bound)).getD []

/-- The path, its parent, the parent of that, and so on. Each is shorter than the one before. -/
def ancestors (path : Path) : List Path := climb (path.text.toList.length + 1) path

/-- The last name of a path, if it ends in one. -/
def fileName? (path : Path) : Option (List Char) :=
  match (path.reversedBody.takeWhile fun c => c != '/').reverse with
  | [] => none
  | ['.', '.'] => none
  | name => some name

/-- A name up to its last dot. A dot that stands first begins no extension. -/
def stem (name : List Char) : List Char :=
  match (name.reverse.dropWhile fun c => c != '.').drop 1 with
  | [] => name
  | reversed => reversed.reverse

/-- The number of characters behind the last dot of a name, if the dot begins an extension. -/
def extensionLength (name : List Char) : Nat := name.length - (stem name).length - 1

/-- The path with an extension behind the stem of its last name, in the place of what followed. -/
def putExtension (path : Path) (extension : String) : Path :=
  match path.fileName? with
  | none => path
  | some name =>
    let before := start path.text.toList ++ (path.reversedBody.drop name.length).reverse
    ⟨String.ofList (before ++ stem name ++ '.' :: extension.toList)⟩

/-- The path with another extension. As many characters as the old one has are first cut from the
end of the text; if two dots remain there, they are no name and take no extension. -/
def withExtension (path : Path) (extension : String) : Path :=
  match path.fileName? with
  | none => path
  | some name =>
    putExtension ⟨String.ofList
      (path.text.toList.take (path.text.toList.length - extensionLength name))⟩ extension

end Path

end RecordQuery
