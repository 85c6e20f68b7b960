import Replay.Xml.Entity
import Replay.Xml.Markup
set_option autoImplicit false

namespace Replay.Xml

structure Attribute where
  key : String
  value : String
  deriving DecidableEq, Repr

namespace Attribute

/-- The key at the start of a text that begins with no white space: its first character, and all
up to white space or an equals sign. -/
def splitKey : List Char → List Char × List Char
  | [] => ([], [])
  | c :: s =>
    (c :: s.takeWhile fun x => x != '=' && !isSpace x, s.dropWhile fun x => x != '=' && !isSpace x)

theorem length_splitKey_le (s : List Char) : (splitKey s).2.length ≤ s.length := by
  cases s with
  | nil => simp [splitKey]
  | cons c s => exact Nat.le_succ_of_le (List.dropWhile_suffix _).length_le

def splitQuoted? : List Char → Option (List Char × List Char)
  | q :: s =>
    if q = '"' ∨ q = '\'' then
      match s.dropWhile (· != q) with
      | _ :: rest => some (s.takeWhile (· != q), rest)
      | [] => none
    else none
  | [] => none

theorem length_splitQuoted_lt {s value rest : List Char} (h : splitQuoted? s = some (value, rest)) :
    rest.length < s.length := by
  cases s with
  | nil => simp [splitQuoted?] at h
  | cons q s =>
    simp only [splitQuoted?] at h
    split at h
    · split at h
      · next heq =>
        have := (List.dropWhile_suffix (l := s) (· != q)).length_le
        simp only [heq, List.length_cons, Option.some.injEq, Prod.mk.injEq] at this h
        rw [← h.2]
        simp only [List.length_cons]
        omega
      · simp at h
    · simp at h

def splitFirst? (s : List Char) : Option ((List Char × List Char) × List Char) :=
  let (key, rest) := splitKey s
  match rest.dropWhile isSpace with
  | '=' :: rest =>
    (splitQuoted? (rest.dropWhile isSpace)).map fun (value, rest) => ((key, value), rest)
  | _ => none

theorem length_splitFirst_lt {s rest : List Char} {pair : List Char × List Char}
    (h : splitFirst? s = some (pair, rest)) : rest.length < s.length := by
  simp only [splitFirst?] at h
  split at h
  · next tail heq =>
    obtain ⟨⟨value, rest'⟩, hv, hr⟩ := Option.map_eq_some_iff.1 h
    have h1 := length_splitQuoted_lt hv
    obtain rfl : rest' = rest := (Prod.mk.inj hr).2
    have h2 := (List.dropWhile_suffix (l := tail) isSpace).length_le
    have h3 := (List.dropWhile_suffix (l := (splitKey s).2) isSpace).length_le
    have h4 := length_splitKey_le s
    simp only [heq, List.length_cons] at h3
    omega
  · simp at h

/-- Keys and values as written, in order. White space between attributes may be missing. -/
def split? (s : List Char) : Option (List (List Char × List Char)) :=
  match _hs : s.dropWhile isSpace with
  | [] => some []
  | c :: t =>
    match _hfirst : splitFirst? (c :: t) with
    | some (pair, rest) => (split? rest).map (pair :: ·)
    | none => none
termination_by s.length
decreasing_by
  have h1 := length_splitFirst_lt _hfirst
  have h2 := (List.dropWhile_suffix (l := s) isSpace).length_le
  rw [_hs] at h2
  omega

def ofWritten? (key value : List Char) : Option Attribute :=
  (Entity.expand? value).map fun v => ⟨String.ofList key, String.ofList v⟩

def read? (s : List Char) : Option (List Attribute) := do
  let pairs ← split? s
  if (pairs.map Prod.fst).Nodup then pairs.mapM fun (key, value) => ofWritten? key value else none

end Attribute

end Replay.Xml
