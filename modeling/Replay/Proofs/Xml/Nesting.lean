import Replay.Proofs.Xml.Construction
set_option autoImplicit false

/-!
Which elements are open at a place of a text, told by the constructs in front of it alone. The last
tag whose element is open is followed by what is balanced, which settles where it stands
(`OpenedAfter.unique`), and so which elements are open as a whole (`Opens.unique`).
-/

namespace Replay.Xml

namespace Markup

def isOpening : Markup → Bool
  | .opening .. => true
  | _ => false

def isClosing : Markup → Bool
  | .closing _ => true
  | _ => false

def start? : Markup → Option (List Char × List Char)
  | .opening name attributes | .void name attributes => some (name, attributes)
  | .closing _ | .characters => none

theorem isClosing_of_isOpening {m : Markup} (h : m.isOpening) : m.isClosing = false := by
  cases m <;> simp_all [isOpening, isClosing]

theorem isStart_of_isOpening {m : Markup} (h : m.isOpening) : m.isStart := by
  cases m <;> simp_all [isOpening, isStart]

theorem isStart_of_start? {m : Markup} {tag : List Char × List Char} (h : m.start? = some tag) :
    m.isStart := by
  cases m <;> simp_all [start?, isStart]

end Markup

structure Balanced (markup : List Markup) : Prop where
  closed_le : ∀ n, (markup.take n).countP (·.isClosing) ≤ (markup.take n).countP (·.isOpening)
  total : markup.countP (·.isClosing) = markup.countP (·.isOpening)

/-- The last tag whose element is left open by the constructs stands directly after `before`. -/
def OpenedAfter (before markup : List Markup) : Prop :=
  ∃ tag between, markup = before ++ tag :: between ∧ tag.isOpening ∧ Balanced between

def InnermostOpen (markup : List Markup) (p : Nat) : Prop :=
  ∃ before, OpenedAfter before markup ∧ before.countP (·.isStart) = p

/-- The elements that the constructs leave open, innermost first. -/
def Opens : List Nat → List Markup → Prop
  | [], markup => Balanced markup
  | p :: outer, markup =>
    ∃ before, OpenedAfter before markup ∧ before.countP (·.isStart) = p ∧ Opens outer before

theorem balanced_nil : Balanced [] := ⟨by simp, rfl⟩

theorem Balanced.append {a b : List Markup} (ha : Balanced a) (hb : Balanced b) :
    Balanced (a ++ b) where
  closed_le n := by
    have hfirst := ha.closed_le n
    have hsecond := hb.closed_le (n - a.length)
    rw [List.take_append, List.countP_append, List.countP_append]
    omega
  total := by
    rw [List.countP_append, List.countP_append, ha.total, hb.total]

theorem balanced_singleton {m : Markup} (hopening : m.isOpening = false)
    (hclosing : m.isClosing = false) : Balanced [m] where
  closed_le n := by
    cases n <;> simp [hclosing]
  total := by simp [hopening, hclosing]

theorem Balanced.enclosed {tag last : Markup} {between : List Markup} (h : Balanced between)
    (htag : tag.isOpening) (hlast : last.isClosing) : Balanced (tag :: (between ++ [last])) where
  closed_le n := by
    cases n with
    | zero => simp
    | succ n =>
      -- The end tag, if it is reached at all, is outweighed by the start tag.
      have hbetween := h.closed_le n
      have hone : (List.take (n - between.length) [last]).countP (·.isClosing) ≤ 1 :=
        Nat.le_trans List.countP_le_length (List.length_take_le' _ [last])
      simp only [List.take_succ_cons, List.take_append, List.countP_cons, List.countP_append, htag,
        Markup.isClosing_of_isOpening, if_true, Bool.false_eq_true, if_false]
      omega
  total := by
    have htotal := h.total
    cases tag <;> cases last <;>
      simp_all [Markup.isOpening, Markup.isClosing]

theorem OpenedAfter.not_balanced {before markup : List Markup} (h : OpenedAfter before markup) :
    ¬ Balanced markup := by
  obtain ⟨tag, between, rfl, htag, hbetween⟩ := h
  intro hbalanced
  have hbefore := hbalanced.closed_le before.length
  have htotal := hbalanced.total
  have hinner := hbetween.total
  simp only [List.take_left, List.countP_append, List.countP_cons, htag, Markup.isClosing_of_isOpening,
    if_true, Bool.false_eq_true, if_false] at hbefore htotal
  omega

theorem OpenedAfter.append {before markup more : List Markup} (h : OpenedAfter before markup)
    (hmore : Balanced more) : OpenedAfter before (markup ++ more) := by
  obtain ⟨tag, between, rfl, htag, hbetween⟩ := h
  exact ⟨tag, between ++ more, by simp, htag, hbetween.append hmore⟩

theorem OpenedAfter.unique {a b markup : List Markup} (ha : OpenedAfter a markup)
    (hb : OpenedAfter b markup) : a = b := by
  -- The later one of two places would be left open by what is balanced after the earlier one.
  have hlater {a b : List Markup} (ha : OpenedAfter a markup) (hb : OpenedAfter b markup)
      {rest : List Markup} (hsplit : b = a ++ rest) : a = b := by
    obtain ⟨tag, between, hmarkup, -, hbetween⟩ := ha
    obtain ⟨last, after, rfl, hlast, hafter⟩ := hb
    rw [hsplit, List.append_assoc, List.append_cancel_left_eq] at hmarkup
    cases rest with
    | nil => rw [hsplit, List.append_nil]
    | cons first mid =>
      obtain ⟨-, rfl⟩ := List.cons.inj hmarkup
      exact (OpenedAfter.not_balanced ⟨last, after, rfl, hlast, hafter⟩ hbetween).elim
  obtain ⟨tag, between, hmarkup, -⟩ := id ha
  obtain ⟨last, after, hmarkup', -⟩ := id hb
  obtain ⟨rest, hsplit, -⟩ | ⟨rest, hsplit, -⟩ :=
    List.append_eq_append_iff.1 (hmarkup.symm.trans hmarkup')
  · exact hlater ha hb hsplit
  · exact (hlater hb ha hsplit).symm

namespace Opens

theorem append {stack : List Nat} {markup more : List Markup} (h : Opens stack markup)
    (hmore : Balanced more) : Opens stack (markup ++ more) := by
  cases stack with
  | nil => exact Balanced.append h hmore
  | cons p outer =>
    obtain ⟨before, hbefore, hp, houter⟩ := h
    exact ⟨before, hbefore.append hmore, hp, houter⟩

theorem closing {p : Nat} {outer : List Nat} {markup : List Markup} (h : Opens (p :: outer) markup)
    {last : Markup} (hlast : last.isClosing) : Opens outer (markup ++ [last]) := by
  obtain ⟨before, ⟨tag, between, rfl, htag, hbetween⟩, -, houter⟩ := h
  rw [List.append_assoc, List.cons_append]
  exact houter.append (hbetween.enclosed htag hlast)

theorem unique {a b : List Nat} {markup : List Markup} (ha : Opens a markup)
    (hb : Opens b markup) : a = b := by
  induction a generalizing b markup with
  | nil =>
    cases b with
    | nil => rfl
    | cons q outer =>
      obtain ⟨before, hbefore, -⟩ := hb
      exact (hbefore.not_balanced ha).elim
  | cons p outer ih =>
    obtain ⟨before, hbefore, rfl, houter⟩ := ha
    cases b with
    | nil => exact (hbefore.not_balanced hb).elim
    | cons q outer' =>
      obtain ⟨before', hbefore', rfl, houter'⟩ := hb
      obtain rfl := hbefore.unique hbefore'
      rw [ih houter houter']

theorem head?_eq_some {stack : List Nat} {markup : List Markup} (h : Opens stack markup) {p : Nat} :
    stack.head? = some p ↔ InnermostOpen markup p := by
  cases stack with
  | nil =>
    constructor
    · nofun
    · rintro ⟨before, hbefore, -⟩
      exact (hbefore.not_balanced h).elim
  | cons q outer =>
    obtain ⟨before, hbefore, rfl, -⟩ := h
    rw [List.head?_cons, Option.some.injEq]
    constructor
    · rintro rfl
      exact ⟨before, hbefore, rfl⟩
    · rintro ⟨before', hbefore', rfl⟩
      rw [hbefore.unique hbefore']

end Opens

end Replay.Xml
