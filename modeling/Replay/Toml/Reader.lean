import Replay.Toml.Scalar
set_option autoImplicit false

namespace Replay.Toml.Reader

def isBlank (c : Char) : Bool := c == ' ' || c == '\t'

def skipBlanks (s : List Char) : List Char := s.dropWhile isBlank

def isPlain (c : Char) : Bool := c == '\t' || (0x20 ≤ c.toNat && c.toNat != 0x7f)

def newline? : List Char → Option (List Char)
  | '\n' :: s => some s
  | '\r' :: '\n' :: s => some s
  | _ => none

def skipComment (s : List Char) : List Char :=
  match s with
  | '#' :: s => s.dropWhile isPlain
  | s => s

def endOfLine? (s : List Char) : Option (List Char) :=
  match skipComment (skipBlanks s) with
  | [] => some []
  | s => newline? s

/-- Skip blanks, comments and line ends; whether a comment has begun is given. -/
def skipLines : Bool → List Char → List Char
  | _, '\n' :: s => skipLines false s
  | _, '\r' :: '\n' :: s => skipLines false s
  | true, c :: s => if isPlain c then skipLines true s else c :: s
  | false, c :: s =>
    if c = '#' then skipLines true s else if isBlank c then skipLines false s else c :: s
  | _, [] => []

def skipTrivia (s : List Char) : List Char := skipLines false s

def scalarValue? (n : Nat) : Option Char :=
  if h : n.isValidChar then some (Char.ofNatAux n h) else none

def codePoint? (width : Nat) (s : List Char) : Option (Char × List Char) := do
  let digits := s.take width
  if digits.length ≠ width || !digits.all (Scalar.digitBelow 16) then none
  let n := digits.foldl (fun n c => 16 * n + (Scalar.hexDigit? c).getD 0) 0
  let c ← scalarValue? n
  return (c, s.drop width)

def escape? : List Char → Option (Char × List Char)
  | 'b' :: s => some ('\x08', s)
  | 't' :: s => some ('\t', s)
  | 'n' :: s => some ('\n', s)
  | 'f' :: s => some ('\x0c', s)
  | 'r' :: s => some ('\r', s)
  | '"' :: s => some ('"', s)
  | '\\' :: s => some ('\\', s)
  | 'u' :: s => codePoint? 4 s
  | 'U' :: s => codePoint? 8 s
  | _ => none

def basicString : Nat → List Char → List Char → Option (List Char × List Char)
  | 0, _, _ => none
  | _, _, [] => none
  | _, done, '"' :: s => some (done.reverse, s)
  | fuel + 1, done, '\\' :: s =>
    match escape? s with
    | some (c, s) => basicString fuel (c :: done) s
    | none => none
  | fuel + 1, done, c :: s => if isPlain c then basicString fuel (c :: done) s else none

def literalString (s : List Char) : Option (List Char × List Char) :=
  let body := s.takeWhile fun c => isPlain c && c != '\''
  match s.dropWhile fun c => isPlain c && c != '\'' with
  | '\'' :: rest => some (body, rest)
  | _ => none

/-- The text after blanks and line ends. A carriage return counts only in front of a line feed. -/
def skipSpace : List Char → List Char
  | '\r' :: '\n' :: s => skipSpace s
  | c :: s => if isBlank c || c == '\n' then skipSpace s else c :: s
  | [] => []

def joinedLines? (s : List Char) : Option (List Char) := (newline? (skipBlanks s)).map skipSpace

/-- Up to five quotes at the start of a text end a string of several lines: the last three do, and
the others belong to it. -/
def closingQuotes? (q : Char) (s : List Char) : Option (Nat × List Char) :=
  let n := min 5 (s.takeWhile (· == q)).length
  if 3 ≤ n then some (n - 3, s.drop n) else none

def multilineString (q : Char) : Nat → List Char → List Char → Option (List Char × List Char)
  | 0, _, _ => none
  | _, _, [] => none
  | fuel + 1, done, c :: s =>
    match closingQuotes? q (c :: s), newline? (c :: s) with
    | some (n, rest), _ => some ((List.replicate n q ++ done).reverse, rest)
    | none, some rest => multilineString q fuel ('\n' :: done) rest
    | none, none =>
      if c = '\\' ∧ q = '"' then
        match joinedLines? s, escape? s with
        | some rest, _ => multilineString q fuel done rest
        | none, some (x, rest) => multilineString q fuel (x :: done) rest
        | none, none => none
      else if isPlain c then multilineString q fuel (c :: done) s
      else none

def openedLines (s : List Char) : List Char := (newline? s).getD s

def string? : List Char → Option (List Char × List Char)
  | '"' :: '"' :: '"' :: s => multilineString '"' (s.length + 1) [] (openedLines s)
  | '\'' :: '\'' :: '\'' :: s => multilineString '\'' (s.length + 1) [] (openedLines s)
  | '"' :: s => basicString (s.length + 1) [] s
  | '\'' :: s => literalString s
  | _ => none

/-- Keys have at most so many parts, and values nest at most so many levels deep. -/
def maxDepth : Nat := 79

def isBareKeyChar (c : Char) : Bool := c.isAlphanum || c == '_' || c == '-'

def simpleKey? (s : List Char) : Option (String × List Char) :=
  match s with
  | '"' :: s => (basicString (s.length + 1) [] s).map fun (k, s) => (String.ofList k, s)
  | '\'' :: s => (literalString s).map fun (k, s) => (String.ofList k, s)
  | s =>
    let k := s.takeWhile isBareKeyChar
    if k.isEmpty then none else some (String.ofList k, s.dropWhile isBareKeyChar)

/-- A key of at most so many parts with dots between them: the parts before the last, and the last.
Blanks around the parts are skipped. -/
def key? : Nat → List Char → Option ((List String × String) × List Char)
  | 0, _ => none
  | parts + 1, s => do
    let (k, s) ← simpleKey? (skipBlanks s)
    match skipBlanks s with
    | '.' :: s => do
      let ((path, last), s) ← key? parts s
      return ((k :: path, last), s)
    | s => return (([], k), s)

abbrev ValueReader := List Char → Option (Toml × List Char)

def items (value : ValueReader) : Nat → List Toml → List Char → Option (List Toml × List Char)
  | 0, _, _ => none
  | fuel + 1, done, s =>
    match skipTrivia s with
    | ']' :: s => some (done.reverse, s)
    | s => do
      let (v, s) ← value s
      match skipTrivia s with
      | ',' :: s => items value fuel (v :: done) s
      | ']' :: s => some ((v :: done).reverse, s)
      | _ => none

def assignment? (value : ValueReader) (s : List Char) :
    Option ((List String × String × Toml) × List Char) := do
  let ((path, key), s) ← key? maxDepth s
  let s ← Text.stripStart? ['='] s
  let (v, s) ← value (skipBlanks s)
  return ((path, key, v), s)

def inlineMembers (value : ValueReader) : Nat → Node.Members → List Char →
    Option (Node.Members × List Char)
  | 0, _, _ => none
  | fuel + 1, members, s => do
    let ((path, key, v), s) ← assignment? value s
    let members ← Node.putValue path key v members
    match skipBlanks s with
    | ',' :: s => inlineMembers value fuel members s
    | '\x7d' :: s => some (members, s)
    | _ => none

def inlineTable? (value : ValueReader) (s : List Char) : Option (Toml × List Char) :=
  match skipBlanks s with
  | '\x7d' :: s => some (.table [], s)
  | s => (inlineMembers value (s.length + 1) [] s).map fun (m, s) =>
    (.table (Node.membersToValue m), s)

def value? : Nat → ValueReader
  | depth, s =>
    match depth, s with
    | _, '"' :: _ => (string? s).map fun (text, s) => (.string (String.ofList text), s)
    | _, '\'' :: _ => (string? s).map fun (text, s) => (.string (String.ofList text), s)
    | depth + 1, '[' :: s =>
      (items (value? depth) (s.length + 1) [] s).map fun (xs, s) => (.array xs, s)
    | depth + 1, '\x7b' :: s => inlineTable? (value? depth) s
    | _, s => Scalar.split? s

structure State where
  root : Node.Members := []
  current : List String := []

/-- A header; `s` follows its opening brackets, which `close` mirrors. -/
def header? (close : List Char) (s : List Char) : Option ((List String × String) × List Char) := do
  let (key, s) ← key? maxDepth s
  let s ← Text.stripStart? close s
  return (key, s)

def line? (st : State) (s : List Char) : Option (State × List Char) :=
  match s with
  | '[' :: '[' :: s => do
    let ((path, key), s) ← header? [']', ']'] s
    let root ← Node.appendTable path key st.root
    return (⟨root, path ++ [key]⟩, s)
  | '[' :: s => do
    let ((path, key), s) ← header? [']'] s
    let root ← Node.openTable path key st.root
    return (⟨root, path ++ [key]⟩, s)
  | s => do
    let ((path, key, v), s) ← assignment? (value? maxDepth) s
    let root ← Node.within st.current (Node.putValue path key v) st.root
    return ({ st with root }, s)

def lines : Nat → State → List Char → Option State
  | 0, _, _ => none
  | fuel + 1, st, s =>
    match skipTrivia s with
    | [] => some st
    | s => do
      let (st, s) ← line? st s
      let s ← endOfLine? s
      lines fuel st s

end Replay.Toml.Reader

namespace Replay.Toml

def parse? (text : String) : Option Toml :=
  let s := match text.toList with
    | '\ufeff' :: s => s
    | s => s
  (Reader.lines (s.length + 1) {} s).map fun st => .table (Node.membersToValue st.root)

end Replay.Toml
