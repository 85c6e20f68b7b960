import Replay.Proofs.Text.Cutting
import Replay.Proofs.XPath.Reading
set_option autoImplicit false

/-!
How location paths are spelled, said without a reader. A path is a row of steps, a step a node test
with predicates in brackets, a predicate a position, `last()` or conditions joined by ` and `. What
may be a name and what may stand in brackets is left open (`Grammar`): the subset that is documented
(`Grammar.documented`) asks more of the words than the one that is accepted (`Grammar.accepted`).
-/

namespace Replay.XPath

def IsQuote (c : Char) : Prop := c = '\'' ∨ c = '"'

instance : DecidablePred IsQuote := fun _ => inferInstanceAs (Decidable (_ ∨ _))

/-- In a text before `tail`, quotes come in pairs, and outside of them `stop` begins nowhere. -/
inductive Sealed (stop tail : List Char) : List Char → Prop
  | nil : Sealed stop tail []
  | bare {c : Char} {s : List Char} (hc : ¬ IsQuote c) (hstop : ¬ stop <+: c :: (s ++ tail))
      (h : Sealed stop tail s) : Sealed stop tail (c :: s)
  | quoted {q : Char} {v s : List Char} (hq : IsQuote q) (hv : q ∉ v) (h : Sealed stop tail s) :
      Sealed stop tail (q :: (v ++ q :: s))

def conjunction : List Char := [' ', 'a', 'n', 'd', ' ']

/-- The parts of a text between the conjunctions that stand outside quotes; of two conjunctions that
overlap, the first one counts. -/
inductive Conjuncts : List (List Char) → List Char → Prop
  | last {s : List Char} (h : Sealed conjunction [] s) : Conjuncts [s] s
  | cons {part : List Char} {parts : List (List Char)} {s : List Char}
      (h : Sealed conjunction conjunction part) (hs : Conjuncts parts s) :
      Conjuncts (part :: parts) (part ++ (conjunction ++ s))

def IsRun (n : List Char) : Prop := n ≠ [] ∧ n.all Reader.isNameChar

instance : DecidablePred IsRun := fun _ => inferInstanceAs (Decidable (_ ∧ _))

def Condition.key : Condition → String
  | .present key | .equals key _ | .contains key _ | .startsWith key _ => key

def Condition.literal? : Condition → Option String
  | .present _ => none
  | .equals _ value | .contains _ value | .startsWith _ value => some value

/-- What is asked of the words of a condition: of the key of an attribute, and of a literal between
two of a quote. -/
structure Words where
  key : List Char → Prop
  literal : Char → List Char → Prop

namespace Words

def documented : Words := ⟨IsRun, fun quote value => quote ∉ value⟩

def any : Words := ⟨fun _ => True, fun _ _ => True⟩

variable (w : Words)

def Quoted (value s : List Char) : Prop :=
  ∃ quote, IsQuote quote ∧ w.literal quote value ∧ Text.trim s = quote :: (value ++ [quote])

def Arguments (key value : String) (s : List Char) : Prop :=
  ∃ front back, s = front ++ ',' :: back ∧ ',' ∉ front ∧ Text.trim front = '@' :: key.toList ∧
    w.key key.toList ∧ w.Quoted value.toList back

end Words

/-- How a condition is spelled. A key ends at the first `=`, or in a function at the first comma. -/
def Condition.Spelled (w : Words) : Condition → List Char → Prop
  | .present key, s => ∃ rest, s = '@' :: rest ∧ '=' ∉ rest ∧ Text.trim rest = key.toList ∧
      w.key key.toList
  | .equals key value, s => ∃ front back, s = '@' :: (front ++ '=' :: back) ∧ '=' ∉ front ∧
      Text.trim front = key.toList ∧ w.key key.toList ∧ w.Quoted value.toList back
  | .contains key value, s => ∃ inner, s = "contains(".toList ++ (inner ++ [')']) ∧
      w.Arguments key value inner
  | .startsWith key value, s => ∃ inner, s = "starts-with(".toList ++ (inner ++ [')']) ∧
      w.Arguments key value inner

/-- What stands in brackets for a predicate, with blanks around it and around each condition. -/
def Predicate.Spelled (w : Words) : Predicate → List Char → Prop
  | .last, s => Text.trim s = "last()".toList
  | .position n, s => 0 < n ∧ n < UInt64.size ∧ ∃ digits, (Text.trim s = digits ∨
      Text.trim s = '+' :: digits) ∧ Text.IsNumeral digits n
  | .all conditions, s => Sealed [']'] [] s ∧ ∃ parts, Conjuncts parts (Text.trim s) ∧
      List.Forall₂ (fun c part => c.Spelled w (Text.trim part)) conditions parts

/-- What is left open about paths: what may be the name in a name test, beyond being one, and what
may stand in brackets for a predicate. -/
structure Grammar where
  name : List Char → Prop
  predicate : Predicate → List Char → Prop

/-- What the documentation admits: no axis in front of a name, runs of name characters as keys, and
literals without a quote like those around them. -/
def Grammar.documented : Grammar :=
  ⟨fun n => ¬ "::".toList <:+: n, Predicate.Spelled .documented⟩

def Grammar.accepted : Grammar := ⟨fun _ => True, Predicate.Spelled .any⟩

def NodeTest.Spelled (g : Grammar) : NodeTest → List Char → Prop
  | .name n, s => s = n.toList ∧ Reader.IsName n.toList ∧ g.name n.toList
  | .any, s => s = ['*'] ∨ s = "node()".toList
  | .self, s => s = ['.']
  | .attr n, s => s = '@' :: n.toList ∧ IsRun n.toList
  | .text, s => s = "text()".toList

inductive Bracketed (g : Grammar) : List Predicate → List Char → Prop
  | nil : Bracketed g [] []
  | cons {p : Predicate} {ps : List Predicate} {s rest : List Char} (hp : g.predicate p s)
      (hps : Bracketed g ps rest) : Bracketed g (p :: ps) ('[' :: (s ++ ']' :: rest))

/-- A step without its separator. -/
def Step.Spelled (g : Grammar) (st : Step) (s : List Char) : Prop :=
  ∃ test brackets, s = test ++ brackets ∧ st.test.Spelled g test ∧
    Bracketed g st.predicates brackets

def Axis.separator : Axis → List Char
  | .child => ['/']
  | .descendant => ['/', '/']

inductive Separated (g : Grammar) : List Step → List Char → Prop
  | nil : Separated g [] []
  | cons {st : Step} {sts : List Step} {s rest : List Char} (hst : st.Spelled g s)
      (hsts : Separated g sts rest) : Separated g (st :: sts) (st.axis.separator ++ (s ++ rest))

/-- How a path is spelled. One that is not absolute has no separator in front and begins with a step
to a child. -/
inductive Path.Spelled (g : Grammar) : Path → List Char → Prop
  | absolute {sts : List Step} {s : List Char} (hne : sts ≠ []) (h : Separated g sts s) :
      Path.Spelled g ⟨true, sts⟩ s
  | relative {st : Step} {sts : List Step} {s rest : List Char} (haxis : st.axis = .child)
      (hst : st.Spelled g s) (hsts : Separated g sts rest) :
      Path.Spelled g ⟨false, st :: sts⟩ (s ++ rest)

variable {g g' : Grammar}

theorem Bracketed.mono {ps : List Predicate} {s : List Char} (h : Bracketed g ps s)
    (hps : ∀ p ∈ ps, ∀ body, g.predicate p body → g'.predicate p body) : Bracketed g' ps s := by
  induction h with
  | nil => exact .nil
  | cons hp _ ih =>
    obtain ⟨hhead, htail⟩ := List.forall_mem_cons.mp hps
    exact .cons (hhead _ hp) (ih htail)

def Step.Carries (g g' : Grammar) (st : Step) : Prop :=
  (∀ n, st.test = .name n → g.name n.toList → g'.name n.toList) ∧
    ∀ p ∈ st.predicates, ∀ body, g.predicate p body → g'.predicate p body

theorem Step.Spelled.mono {st : Step} {s : List Char} (h : st.Spelled g s)
    (hst : st.Carries g g') : st.Spelled g' s := by
  obtain ⟨test, brackets, rfl, htest, hbrackets⟩ := h
  refine ⟨test, brackets, rfl, ?_, hbrackets.mono hst.2⟩
  cases hname : st.test with
  | name n =>
    rw [hname] at htest
    exact ⟨htest.1, htest.2.1, hst.1 n hname htest.2.2⟩
  | _ => rwa [hname] at htest

theorem Separated.mono {sts : List Step} {s : List Char} (h : Separated g sts s)
    (hsts : ∀ st ∈ sts, st.Carries g g') : Separated g' sts s := by
  induction h with
  | nil => exact .nil
  | cons hst _ ih =>
    obtain ⟨hhead, htail⟩ := List.forall_mem_cons.mp hsts
    exact .cons (hst.mono hhead) (ih htail)

theorem Path.Spelled.mono {path : Path} {s : List Char} (h : path.Spelled g s)
    (hsts : ∀ st ∈ path.steps, st.Carries g g') : path.Spelled g' s := by
  cases h with
  | absolute hne h => exact .absolute hne (h.mono hsts)
  | relative haxis hst h =>
    obtain ⟨hhead, htail⟩ := List.forall_mem_cons.mp hsts
    exact .relative haxis (hst.mono hhead) (h.mono htail)

end Replay.XPath
