import Replay.Text.Basic
set_option autoImplicit false

/-!
The constructs of a hierarchy dump. `Scanner.feed` reads one character, so scanning a text is a
left fold, and scanning an appended text continues where the first one stopped.
-/

namespace Replay.Xml

/-- White space inside markup: space, tab, carriage return and line feed only. -/
def isSpace (c : Char) : Bool := c == ' ' || c == '\t' || c == '\r' || c == '\n'

/-- A construct of the text. Comments, processing instructions and document type declarations
leave no markup. -/
inductive Markup where
  | opening (name attributes : List Char)
  | void (name attributes : List Char)
  | closing (name : List Char)
  /-- Character data that is not white space only, or a CDATA section. -/
  | characters
  deriving DecidableEq, Repr

/-- Trailing white space after the name of an end tag is dropped, unless nothing else is there. -/
def closingName (body : List Char) : List Char :=
  let name := (body.reverse.dropWhile isSpace).reverse
  if name.isEmpty then body else name

/-- The tag with `body` between its angle brackets. A slash in front makes an end tag, a slash at
the end an empty element; the name reaches up to the first white space. -/
def Markup.ofTag (body : List Char) : Markup :=
  let named (s : List Char) := (s.takeWhile (!isSpace ·), s.dropWhile (!isSpace ·))
  match body with
  | '/' :: name => .closing (closingName name)
  | _ =>
    match Text.stripEnd? ['/'] body with
    | some inner => .void (named inner).1 (named inner).2
    | none => .opening (named body).1 (named body).2

inductive Mode where
  /-- Outside markup; `seen` once a character other than white space was read. -/
  | content (seen : Bool)
  | bracket
  /-- In a tag, with the quote that is open and the characters so far, newest first. -/
  | tag (quote : Option Char) (body : List Char)
  | declaration
  | dash
  /-- In a comment that so far ends in this many dashes, at most two. -/
  | comment (dashes : Nat)
  /-- In the keyword of a CDATA section, with the characters it still needs. -/
  | sectionKeyword (missing : List Char)
  /-- In a CDATA section that so far ends in this many closing brackets, at most two. -/
  | characterSection (brackets : Nat)
  | doctypeKeyword (missing : List Char)
  /-- In a document type declaration, inside `depth` further angle brackets; `named` once it
  holds anything but white space. -/
  | doctype (named : Bool) (depth : Nat)
  | question
  /-- In a processing instruction; `closable` after a question mark. -/
  | instruction (closable : Bool)
  | broken
  deriving DecidableEq, Repr

inductive Effect where
  | goOn (mode : Mode)
  | finish (markup : Option Markup)
  deriving DecidableEq, Repr

/-- A character inside a tag. Quoted parts hide the closing angle bracket. -/
def tagEffect (quote : Option Char) (body : List Char) (c : Char) : Effect :=
  match quote with
  | some q => .goOn (.tag (if c = q then none else some q) (c :: body))
  | none =>
    if c = '>' then .finish (some (.ofTag body.reverse))
    else .goOn (.tag (if c = '\'' || c = '"' then some c else none) (c :: body))

def bracketEffect (c : Char) : Effect :=
  if c = '!' then .goOn .declaration
  else if c = '?' then .goOn .question
  else tagEffect none [] c

def declarationEffect (c : Char) : Effect :=
  if c = '-' then .goOn .dash
  else if c = '[' then .goOn (.sectionKeyword ['C', 'D', 'A', 'T', 'A', '['])
  else if c.toUpper = 'D' then .goOn (.doctypeKeyword ['O', 'C', 'T', 'Y', 'P', 'E'])
  else .goOn .broken

def commentEffect (dashes : Nat) (c : Char) : Effect :=
  if c = '-' then .goOn (.comment (min 2 (dashes + 1)))
  else if c = '>' ∧ 2 ≤ dashes then .finish none
  else .goOn (.comment 0)

def sectionKeywordEffect (missing : List Char) (c : Char) : Effect :=
  match missing with
  | [] => .goOn .broken
  | k :: more =>
    if c ≠ k then .goOn .broken
    else if more.isEmpty then .goOn (.characterSection 0)
    else .goOn (.sectionKeyword more)

def characterSectionEffect (brackets : Nat) (c : Char) : Effect :=
  if c = ']' then .goOn (.characterSection (min 2 (brackets + 1)))
  else if c = '>' ∧ 2 ≤ brackets then .finish (some .characters)
  else .goOn (.characterSection 0)

def doctypeKeywordEffect (missing : List Char) (c : Char) : Effect :=
  match missing with
  | [] => .goOn .broken
  | k :: more =>
    if c.toUpper ≠ k then .goOn .broken
    else if more.isEmpty then .goOn (.doctype false 0)
    else .goOn (.doctypeKeyword more)

/-- A document type declaration ends with the angle bracket that balances its own, and it has to
name something. -/
def doctypeEffect (named : Bool) (depth : Nat) (c : Char) : Effect :=
  if c = '<' then .goOn (.doctype true (depth + 1))
  else if c = '>' then
    if depth = 0 then (if named then .finish none else .goOn .broken)
    else .goOn (.doctype true (depth - 1))
  else .goOn (.doctype (named || !isSpace c) depth)

def instructionEffect (closable : Bool) (c : Char) : Effect :=
  if closable ∧ c = '>' then .finish none else .goOn (.instruction (c == '?'))

def contentEffect (seen : Bool) (c : Char) : Effect :=
  .goOn (.content (seen || !isSpace c))

def Mode.effect : Mode → Char → Effect
  | .content seen, c => contentEffect seen c
  | .bracket, c => bracketEffect c
  | .tag quote body, c => tagEffect quote body c
  | .declaration, c => declarationEffect c
  | .dash, c => .goOn (if c = '-' then .comment 0 else .broken)
  | .comment dashes, c => commentEffect dashes c
  | .sectionKeyword missing, c => sectionKeywordEffect missing c
  | .characterSection brackets, c => characterSectionEffect brackets c
  | .doctypeKeyword missing, c => doctypeKeywordEffect missing c
  | .doctype named depth, c => doctypeEffect named depth c
  | .question, c => .goOn (if c = '>' then .broken else .instruction (c == '?'))
  | .instruction closable, c => instructionEffect closable c
  | .broken, _ => .goOn .broken

structure Placed where
  after : Nat
  markup : Markup
  deriving DecidableEq, Repr

structure Scanner where
  mode : Mode := .content false
  position : Nat := 0
  /-- The offset at which the last construct ended. -/
  mark : Nat := 0
  found : List Placed := []
  deriving DecidableEq, Repr

namespace Scanner

/-- Leave character data: data that is not white space only counts as a construct, which ends
here. -/
def leaveContent (s : Scanner) (seen : Bool) : Scanner :=
  if seen then { s with mark := s.position, found := ⟨s.mark, .characters⟩ :: s.found } else s

def feed (s : Scanner) (c : Char) : Scanner :=
  let next := s.position + c.utf8Size
  match s.mode, decide (c = '<') with
  | .content seen, true => { s.leaveContent seen with mode := .bracket, position := next }
  | mode, _ =>
    match mode.effect c with
    | .goOn mode => { s with mode, position := next }
    | .finish markup =>
      { mode := .content false, position := next, mark := next
        found := (markup.map (Placed.mk s.mark)).toList ++ s.found }

def run (s : Scanner) (text : List Char) : Scanner := text.foldl feed s

def markup (s : Scanner) : List Placed := s.found.reverse

def atRest (s : Scanner) : Bool := s.mode matches .content _

end Scanner

def withoutByteOrderMark : List Char → List Char
  | '\ufeff' :: s => s
  | s => s

def scan (text : List Char) : Scanner := Scanner.run {} (withoutByteOrderMark text)

end Replay.Xml
