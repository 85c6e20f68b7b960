import Replay.Decimal.Shortest
import Replay.Json.Basic
set_option autoImplicit false

namespace Replay.Json

def hexDigit (n : Nat) : Char := Nat.digitChar (n % 16)

/-- A character inside a string. Only quotes, backslashes and control characters are escaped. -/
def escapeChar : Char → List Char
  | '"' => ['\\', '"']
  | '\\' => ['\\', '\\']
  | '\x08' => ['\\', 'b']
  | '\x0c' => ['\\', 'f']
  | '\n' => ['\\', 'n']
  | '\r' => ['\\', 'r']
  | '\t' => ['\\', 't']
  | c =>
    if c.toNat < 0x20 then ['\\', 'u', '0', '0', hexDigit (c.toNat / 16), hexDigit c.toNat]
    else [c]

def quote (s : String) : String := String.ofList ('"' :: (s.toList.flatMap escapeChar ++ ['"']))

end Replay.Json

namespace Replay

def Number.render : Number → String
  | .integer n => toString n
  | .real x => Decimal.render x

namespace Json

structure Style where
  newline : Nat → String
  colon : String

def Style.compact : Style := ⟨fun _ => "", ":"⟩

def Style.pretty : Style := ⟨fun depth => String.ofList ('\n' :: List.replicate (2 * depth) ' '), ": "⟩

mutual

def pieces (style : Style) (depth : Nat) : Json → List String
  | .null => ["null"]
  | .bool b => [if b then "true" else "false"]
  | .number n => [n.render]
  | .string s => [quote s]
  | .array [] => ["[]"]
  | .array (x :: xs) =>
    "[" :: style.newline (depth + 1) :: (pieces style (depth + 1) x ++
      (itemPieces style (depth + 1) xs ++ [style.newline depth, "]"]))
  | .object [] => ["\x7b\x7d"]
  | .object ((k, x) :: xs) =>
    "\x7b" :: style.newline (depth + 1) :: quote k :: style.colon :: (pieces style (depth + 1) x ++
      (memberPieces style (depth + 1) xs ++ [style.newline depth, "\x7d"]))

def itemPieces (style : Style) (depth : Nat) : List Json → List String
  | [] => []
  | x :: xs => "," :: style.newline depth :: (pieces style depth x ++ itemPieces style depth xs)

def memberPieces (style : Style) (depth : Nat) : List (String × Json) → List String
  | [] => []
  | (k, x) :: xs =>
    "," :: style.newline depth :: quote k :: style.colon ::
      (pieces style depth x ++ memberPieces style depth xs)

end

def render (style : Style) (j : Json) : String := String.join (pieces style 0 j)

def compact (j : Json) : String := render .compact j

def pretty (j : Json) : String := render .pretty j

end Json

end Replay
