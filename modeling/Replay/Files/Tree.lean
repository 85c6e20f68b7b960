import Replay.Files.Basic
import Replay.Ordered
set_option autoImplicit false

namespace Replay

abbrev Location := List String

structure FileTree where
  files : Ordered.Map Location String := []
  directories : List Location := []
  here : Location := []
  deriving DecidableEq, Repr

namespace FileTree

def isFile (t : FileTree) (l : Location) : Bool := (Ordered.get? l t.files).isSome

def isDirectory (t : FileTree) (l : Location) : Bool := l.isEmpty || t.directories.contains l

/-- Follow one part of a path, which is possible in directories only. The root is its own parent. -/
def follow (t : FileTree) (l : Location) (part : List Char) : Option Location :=
  if !t.isDirectory l then none
  else if Files.isStay part then some l
  else if part = ['.', '.'] then some l.dropLast
  else some (l ++ [String.ofList part])

def start (t : FileTree) (path : String) : Location := if Files.isAbsolute path then [] else t.here

def locate (t : FileTree) (path : String) : Option Location :=
  (Files.parts path.toList).foldlM t.follow (t.start path)

def endsInName (path : String) : Bool :=
  (Files.parts path.toList).getLast?.any fun p => !Files.isStay p && p ≠ ['.', '.']

def read (t : FileTree) (path : String) : Option String :=
  t.locate path >>= fun l => Ordered.get? l t.files

def write (t : FileTree) (path text : String) : Option FileTree := do
  if !endsInName path then none
  let l ← t.locate path
  if t.isDirectory l then none
  return { t with files := Ordered.insert l text t.files }

/-- Follow one part of a path, and create the directory if there is nothing yet. -/
def enter (state : FileTree × Location) (part : List Char) : Option (FileTree × Location) := do
  let (t, l) := state
  let next ← t.follow l part
  if t.isFile next then none
  else if t.isDirectory next then some (t, next)
  else some ({ t with directories := t.directories ++ [next] }, next)

def createDirectories (t : FileTree) (path : String) : Option FileTree :=
  ((Files.parts path.toList).foldlM enter (t, t.start path)).map Prod.fst

def attempt (change : FileTree → Option FileTree) : StateM FileTree Bool := fun t =>
  match change t with
  | some changed => (true, changed)
  | none => (false, t)

instance : Files (StateM FileTree) where
  read path := fun t => (t.read path, t)
  write path text := attempt fun t => t.write path text
  replace path text := attempt fun t => t.write path text
  createDirectories path := attempt fun t => t.createDirectories path

end FileTree

end Replay
