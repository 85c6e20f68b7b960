set_option autoImplicit false

namespace Replay

/-- Operations on text files. Those that change files say whether they succeeded. -/
class Files (m : Type → Type) where
  read : String → m (Option String)
  write : String → String → m Bool
  replace : String → String → m Bool
  /-- Create a directory with those that it lies in; one that exists is left alone. -/
  createDirectories : String → m Bool

namespace Files

def parts : List Char → List (List Char)
  | [] => [[]]
  | c :: s =>
    if c = '/' then [] :: parts s
    else
      match parts s with
      | [] => [[c]]
      | p :: ps => (c :: p) :: ps

def ofParts : List (List Char) → List Char
  | [] => []
  | [p] => p
  | p :: ps => p ++ '/' :: ofParts ps

def isStay (part : List Char) : Bool := part = [] || part = ['.']

def isAbsolute (path : String) : Bool := path.toList.head? == some '/'

def parent (path : String) : String :=
  match ((parts path.toList).reverse.dropWhile isStay).drop 1 with
  | [] => "."
  | [[]] => "/"
  | ps => String.ofList (ofParts ps.reverse)

/-- A path inside a directory; an absolute path stays as it is. -/
def join (directory path : String) : String :=
  if isAbsolute path || directory.isEmpty then path
  else if directory.toList.getLast? == some '/' then directory ++ path
  else directory ++ "/" ++ path

def put {m : Type → Type} [Monad m] [Files m] (path text : String) : m Bool := do
  if ← createDirectories (parent path) then replace path text else return false

end Files

end Replay
