import Replay.Proofs.Text.Numeral
import Replay.Rect
set_option autoImplicit false

namespace Replay

namespace Rect

/-- A coordinate as a text: a decimal in the range of 32 bits, with blanks around it. -/
def IsCoordinate (s : List Char) (x : Int32) : Prop :=
  ∃ number, Text.Padded number s ∧ Text.IsDecimal number x.toInt

def IsPair (s : List Char) (x y : Int32) : Prop :=
  ∃ a b, s = a ++ ',' :: b ∧ IsCoordinate a x ∧ IsCoordinate b y

/-- Two pairs in brackets, with blanks around them: `[left,top][right,bottom]`. -/
def IsSpelled (r : Rect) (s : List Char) : Prop :=
  ∃ first second, Text.Padded ('[' :: (first ++ ']' :: '[' :: second ++ [']'])) s ∧
    IsPair first r.left r.top ∧ IsPair second r.right r.bottom

section Reading

variable {s : List Char} {x y : Int32} {r : Rect}

theorem readInt32?_trim : Text.readInt32? (Text.trim s) = some x ↔ IsCoordinate s x := by
  rw [Text.readInt32?_eq_some]
  constructor
  · exact fun h => ⟨Text.trim s, Text.padded_trim s, h⟩
  · rintro ⟨number, hpadded, h⟩
    rwa [(Text.trim_eq_iff h.isSolid).mpr hpadded]

theorem IsCoordinate.notMem (h : IsCoordinate s x) {c : Char} (hblank : Text.isBlank c = false)
    (hdigit : c.isDigit = false) (hsign : c ≠ '+' ∧ c ≠ '-') : c ∉ s := by
  obtain ⟨number, hpadded, h⟩ := h
  exact hpadded.notMem hblank (h.notMem hdigit hsign)

theorem IsPair.notMem (h : IsPair s x y) : ']' ∉ s := by
  obtain ⟨a, b, rfl, ha, hb⟩ := h
  have hfirst := ha.notMem (c := ']') (by decide) (by decide) (by decide)
  have hsecond := hb.notMem (c := ']') (by decide) (by decide) (by decide)
  simp [hfirst, hsecond]

theorem readPair?_eq_some : readPair? s = some (x, y) ↔ IsPair s x y := by
  constructor
  · intro h
    obtain ⟨⟨a, b⟩, hsplit, h⟩ := Option.bind_eq_some_iff.mp h
    obtain ⟨x', hx, h⟩ := Option.bind_eq_some_iff.mp h
    obtain ⟨y', hy, h⟩ := Option.bind_eq_some_iff.mp h
    obtain ⟨rfl, rfl⟩ := Prod.mk.inj (Option.some.inj h)
    exact ⟨a, b, Text.eq_append_of_splitOnce? hsplit, readInt32?_trim.mp hx, readInt32?_trim.mp hy⟩
  · rintro ⟨a, b, rfl, ha, hb⟩
    have hcomma : ',' ∉ a := ha.notMem (by decide) (by decide) (by decide)
    have hsplit : Text.splitOnce? [','] (a ++ ',' :: b) = some (a, b) :=
      Text.splitOnce?_eq_some.mpr ⟨rfl, hcomma⟩
    rw [readPair?, hsplit]
    simp only [Option.bind_eq_bind, Option.bind_some, readInt32?_trim.mpr ha,
      readInt32?_trim.mpr hb, Option.pure_def]

theorem isSolid_bracketed (s : List Char) : Text.IsSolid ('[' :: (s ++ [']'])) :=
  Text.IsSolid.append (a := ['[']) (b := [']']) (Text.IsSolid.of_all (by decide) (by decide))
    (Text.IsSolid.of_all (by decide) (by decide)) s

/-- The first `][` of the text stands between the two pairs, since there is no bracket in one. -/
theorem read?_eq_some : read? s = some r ↔ r.IsSpelled s := by
  constructor
  · intro h
    obtain ⟨opened, hopened, h⟩ := Option.bind_eq_some_iff.mp h
    obtain ⟨inner, hinner, h⟩ := Option.bind_eq_some_iff.mp h
    obtain ⟨⟨first, second⟩, hsplit, h⟩ := Option.bind_eq_some_iff.mp h
    obtain ⟨⟨left, top⟩, hfirst, h⟩ := Option.bind_eq_some_iff.mp h
    obtain ⟨⟨right, bottom⟩, hsecond, h⟩ := Option.bind_eq_some_iff.mp h
    obtain rfl := Option.some.inj h
    refine ⟨first, second, ?_, readPair?_eq_some.mp hfirst, readPair?_eq_some.mp hsecond⟩
    have htrim : Text.trim s = '[' :: (first ++ ']' :: '[' :: second ++ [']']) := by
      rw [Text.stripStart?_eq_some.mp hopened, Text.stripEnd?_eq_some.mp hinner,
        Text.eq_append_of_splitOnce? hsplit]
      rfl
    exact htrim ▸ Text.padded_trim s
  · rintro ⟨first, second, hpadded, hfirst, hsecond⟩
    have htrim := (Text.trim_eq_iff (isSolid_bracketed _)).mpr hpadded
    have hstart : Text.stripStart? ['['] (Text.trim s) =
        some (first ++ ']' :: '[' :: second ++ [']']) := by
      rw [htrim]
      exact Text.stripStart?_eq_some.mpr rfl
    have hend : Text.stripEnd? [']'] (first ++ ']' :: '[' :: second ++ [']']) =
        some (first ++ ']' :: '[' :: second) := Text.stripEnd?_eq_some.mpr rfl
    have hsplit : Text.splitOnce? [']', '['] (first ++ ']' :: '[' :: second) =
        some (first, second) := Text.splitOnce?_append hfirst.notMem second
    rw [read?, hstart]
    simp only [Option.bind_eq_bind, Option.bind_some, hend, hsplit, readPair?_eq_some.mpr hfirst,
      readPair?_eq_some.mpr hsecond, Option.pure_def]

end Reading

theorem parse?_eq_some {s : String} {r : Rect} : parse? s = some r ↔ r.IsSpelled s.toList :=
  read?_eq_some

def pairText (x y : Int32) : List Char :=
  (toString x.toInt).toList ++ ',' :: (toString y.toInt).toList

theorem isPair_pairText (x y : Int32) : IsPair (pairText x y) x y := by
  have hwritten (x : Int32) : IsCoordinate (toString x.toInt).toList x :=
    ⟨_, Text.padded_self _, Text.isDecimal_toString x.toInt⟩
  exact ⟨_, _, rfl, hwritten x, hwritten y⟩

theorem toList_render (r : Rect) : r.render.toList =
    '[' :: (pairText r.left r.top ++ ']' :: '[' :: pairText r.right r.bottom ++ [']']) := by
  simp [render, pairText, toString]

theorem isSpelled_render (r : Rect) : r.IsSpelled r.render.toList := by
  refine ⟨pairText r.left r.top, pairText r.right r.bottom, ?_, isPair_pairText _ _,
    isPair_pairText _ _⟩
  rw [← toList_render]
  exact Text.padded_self _

theorem parse?_render (r : Rect) : parse? r.render = some r :=
  parse?_eq_some.mpr r.isSpelled_render

/-- What is written for a rectangle is read as that rectangle. A text is read as a rectangle exactly
if it spells it, and is refused exactly if it spells none. -/
theorem parse?_reads_spelled :
    (∀ r : Rect, parse? r.render = some r) ∧
      (∀ (s : String) (r : Rect), parse? s = some r ↔ r.IsSpelled s.toList) ∧
        ∀ s : String, parse? s = none ↔ ∀ r : Rect, ¬ r.IsSpelled s.toList := by
  refine ⟨parse?_render, fun s r => parse?_eq_some, fun s => ?_⟩
  rw [Option.eq_none_iff_forall_ne_some]
  exact forall_congr' fun r => not_congr parse?_eq_some

example : parse? " [+1 ,-002][0,\u2003-2147483648]\n" = some ⟨1, -2, 0, -2147483648⟩ := by decide

example : parse? "[1,2][3,4][5,6]" = none := by decide

def coordinates (left top right bottom : Int) : String := s!"[{left},{top}][{right},{bottom}]"

theorem render_eq_coordinates (r : Rect) :
    r.render = coordinates r.left.toInt r.top.toInt r.right.toInt r.bottom.toInt := rfl

theorem toList_coordinates (left top right bottom : Int) :
    (coordinates left top right bottom).toList =
      '[' :: ((toString left).toList ++ ',' :: ((toString top).toList ++
        ']' :: '[' :: ((toString right).toList ++ ',' :: (toString bottom).toList)) ++ [']']) := by
  simp [coordinates, toString]

theorem trimmed_coordinates (left top right bottom : Int) :
    Text.trimmed (coordinates left top right bottom) = coordinates left top right bottom := by
  rw [Text.trimmed, toList_coordinates, (isSolid_bracketed _).trim, ← toList_coordinates,
    String.ofList_toList]

theorem coordinates_inj {left top right bottom left' top' right' bottom' : Int}
    (h : coordinates left top right bottom = coordinates left' top' right' bottom') :
    left = left' ∧ top = top' ∧ right = right' ∧ bottom = bottom' := by
  have hcomma (n : Int) : ',' ∉ (toString n).toList :=
    (Text.isDecimal_toString n).notMem rfl (by decide)
  have hbracket (n : Int) : ']' ∉ (toString n).toList :=
    (Text.isDecimal_toString n).notMem rfl (by decide)
  have hnumber {m n : Int} (heq : (toString m).toList = (toString n).toList) : m = n := by
    have hm := Text.readInt?_eq_some.mpr (Text.isDecimal_toString m)
    have hn := Text.readInt?_eq_some.mpr (Text.isDecimal_toString n)
    rw [heq, hn] at hm
    exact (Option.some.inj hm).symm
  have hchars := congrArg String.toList h
  simp only [toList_coordinates, List.append_assoc, List.cons_append] at hchars
  obtain ⟨hleft, hrest⟩ := Text.append_cons_inj (hcomma _) (hcomma _) (List.cons.inj hchars).2
  obtain ⟨htop, hrest⟩ := Text.append_cons_inj (hbracket _) (hbracket _) hrest
  obtain ⟨hright, hrest⟩ := Text.append_cons_inj (hcomma _) (hcomma _) (List.cons.inj hrest).2
  obtain ⟨hbottom, -⟩ := Text.append_cons_inj (hbracket _) (hbracket _) hrest
  exact ⟨hnumber hleft, hnumber htop, hnumber hright, hnumber hbottom⟩

end Rect

end Replay
