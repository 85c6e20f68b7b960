import Replay.Text.CharClass
set_option autoImplicit false

namespace Replay.Text

def trimStart (s : List Char) : List Char := s.dropWhile isBlank

def trimEnd (s : List Char) : List Char := (s.reverse.dropWhile isBlank).reverse

def trim (s : List Char) : List Char := trimEnd (trimStart s)

def isBlankText (s : String) : Bool := s.toList.all isBlank

def trimmed (s : String) : String := String.ofList (trim s.toList)

def utf8Size (s : List Char) : Nat := s.foldl (fun n c => n + c.utf8Size) 0

def stripStart? : List Char → List Char → Option (List Char)
  | [], s => some s
  | _ :: _, [] => none
  | l :: lead, c :: s => if l = c then stripStart? lead s else none

def stripEnd? (trail s : List Char) : Option (List Char) :=
  (stripStart? trail.reverse s.reverse).map List.reverse

def startsWith (lead s : List Char) : Bool := (stripStart? lead s).isSome

def occursIn (part : List Char) : List Char → Bool
  | [] => part.isEmpty
  | c :: s => startsWith part (c :: s) || occursIn part s

/-- The texts before and after the first occurrence of `sep`. -/
def splitOnce? (sep : List Char) : List Char → Option (List Char × List Char)
  | [] => if sep.isEmpty then some ([], []) else none
  | c :: s =>
    match stripStart? sep (c :: s) with
    | some after => some ([], after)
    | none => (splitOnce? sep s).map fun (before, after) => (c :: before, after)

def asciiLower (s : String) : String := String.ofList (s.toList.map Char.toLower)

def sameIgnoringCase (a b : List Char) : Bool := a.map Char.toLower == b.map Char.toLower

def digitValue (c : Char) : Nat := c.toNat - '0'.toNat

def natOfDigits (s : List Char) : Nat := s.foldl (fun n c => 10 * n + digitValue c) 0

def readNat? (s : List Char) : Option Nat :=
  if !s.isEmpty && s.all Char.isDigit then some (natOfDigits s) else none

def readUnsigned? : List Char → Option Nat
  | '+' :: s => readNat? s
  | s => readNat? s

def readInt? : List Char → Option Int
  | '-' :: s => (readNat? s).map fun n => -Int.ofNat n
  | '+' :: s => (readNat? s).map Int.ofNat
  | s => (readNat? s).map Int.ofNat

def readInt32? (s : List Char) : Option Int32 := do
  let n ← readInt? s
  if -0x80000000 ≤ n ∧ n < 0x80000000 then some (Int32.ofInt n) else none

def zeroPadded (width n : Nat) : String :=
  let digits := Nat.toDigits 10 n
  String.ofList (List.replicate (width - digits.length) '0' ++ digits)

end Replay.Text
