import Replay.Proofs.XPath.Bodies
set_option autoImplicit false

/-!
The reader accepts a language: the texts that the grammar `Grammar.accepted` spells, and no others
(`parse_eq_ok`). Each reader is sound, what it takes is spelled as what it returns, and complete in
front of any text that may follow it. Steps and predicates are bounded by fuel, which is no bound on
the language: it is the length of the text, and nothing is spelled without a character.
-/

namespace Replay.XPath

variable {g : Grammar}

theorem NodeTest.Spelled.ne_nil {t : NodeTest} {s : List Char} (h : t.Spelled g s) : s ≠ [] := by
  cases t with
  | name n => exact h.1 ▸ h.2.1.ne_nil
  | any => obtain rfl | rfl := h <;> decide
  | self => exact h ▸ nofun
  | attr n => exact h.1 ▸ nofun
  | text => exact h ▸ by decide

theorem NodeTest.Spelled.chars {t : NodeTest} {s : List Char} (h : t.Spelled g s) :
    ∀ c ∈ s, c ≠ '/' ∧ Text.isBlank c = false := by
  have hall (w : List Char) (hw : w.all fun c => c ≠ '/' && !Text.isBlank c) :
      ∀ c ∈ w, c ≠ '/' ∧ Text.isBlank c = false := by simpa using hw
  have hname (c : Char) (hc : Reader.isNameChar c) : c ≠ '/' ∧ Text.isBlank c = false := by
    refine ⟨?_, Reader.isBlank_of_isNameChar hc⟩
    rintro rfl
    cases hc
  cases t with
  | name n => exact fun c hc => hname c (h.2.1.chars c (h.1 ▸ hc))
  | any => obtain rfl | rfl := h <;> exact hall _ (by decide)
  | self => exact h ▸ hall _ (by decide)
  | attr n =>
    obtain ⟨rfl, -, hn⟩ := h
    rintro c (_ | ⟨_, hc⟩)
    · exact ⟨by decide, rfl⟩
    · exact hname c (List.all_eq_true.mp hn c hc)
  | text => exact h ▸ hall _ (by decide)

theorem Step.Spelled.exists_cons {st : Step} {text : List Char} (h : st.Spelled g text) :
    ∃ c more, text = c :: more ∧ c ≠ '/' := by
  obtain ⟨test, brackets, rfl, htest, -⟩ := h
  obtain ⟨c, test, rfl⟩ := List.exists_cons_of_ne_nil htest.ne_nil
  exact ⟨c, test ++ brackets, rfl, (htest.chars c List.mem_cons_self).1⟩

theorem Axis.head?_separator (a : Axis) (s : List Char) : (a.separator ++ s).head? = some '/' := by
  cases a <;> rfl

theorem Bracketed.isSolid {ps : List Predicate} {s : List Char} (h : Bracketed g ps s)
    (hne : s ≠ []) : Text.IsSolid s := by
  have hopening : Text.IsSolid ['['] := .of_all (by decide) (by decide)
  have hclosing : Text.IsSolid [']'] := .of_all (by decide) (by decide)
  induction h with
  | nil => exact absurd rfl hne
  | @cons p ps body rest _ _ ih =>
    have hends := (hopening.append hclosing body).append_of_imp ih
    simpa using hends

theorem Step.Spelled.isSolid {st : Step} {text : List Char} (h : st.Spelled g text) :
    Text.IsSolid text := by
  obtain ⟨test, brackets, rfl, htest, hbrackets⟩ := h
  exact (Text.IsSolid.of_forall htest.ne_nil fun c hc => (htest.chars c hc).2).append_of_imp
    hbrackets.isSolid

theorem Step.Spelled.length_pos {st : Step} {text : List Char} (h : st.Spelled g text) :
    0 < text.length := List.length_pos_of_ne_nil h.isSolid.ne_nil

theorem Axis.isSolid_separator (a : Axis) : Text.IsSolid a.separator := by
  cases a <;> exact .of_all (by decide) (by decide)

theorem Separated.isSolid {sts : List Step} {s : List Char} (h : Separated g sts s)
    (hne : s ≠ []) : Text.IsSolid s := by
  induction h with
  | nil => exact absurd rfl hne
  | @cons st sts text rest htext _ ih =>
    have hends := (st.axis.isSolid_separator.append htext.isSolid []).append_of_imp ih
    simpa using hends

theorem Path.Spelled.isSolid {path : Path} {s : List Char} (h : path.Spelled g s) :
    Text.IsSolid s := by
  cases h with
  | absolute hne h =>
    refine h.isSolid ?_
    cases h with
    | nil => exact absurd rfl hne
    | @cons st => exact List.append_ne_nil_of_left_ne_nil st.axis.isSolid_separator.ne_nil _
  | relative _ htext h => exact htext.isSolid.append_of_imp h.isSolid

def Stands (first : Bool) (st : Step) (text rest s : List Char) : Prop :=
  s = st.axis.separator ++ (text ++ rest) ∨
    first ∧ st.axis = .child ∧ s.head? ≠ some '/' ∧ s = text ++ rest

theorem Stands.length_le {first : Bool} {st : Step} {text rest s : List Char}
    (h : Stands first st text rest s) : text.length + rest.length ≤ s.length := by
  obtain rfl | ⟨-, -, -, rfl⟩ := h <;> simp

/-- A path is spelled as a first step that may stand without a separator, and others that do not. -/
theorem Path.spelled_iff {path : Path} {s : List Char} : path.Spelled g s ↔
    ∃ st more text rest, path = ⟨s.head? == some '/', st :: more⟩ ∧ st.Spelled g text ∧
      Separated g more rest ∧ Stands true st text rest s := by
  constructor
  · intro h
    cases h with
    | @absolute sts s hne h =>
      cases h with
      | nil => exact absurd rfl hne
      | @cons st more text rest htext hmore =>
        refine ⟨st, more, text, rest, ?_, htext, hmore, Or.inl rfl⟩
        rw [st.axis.head?_separator]
        rfl
    | @relative st more text rest haxis htext hmore =>
      obtain ⟨c, tail, rfl, hc⟩ := htext.exists_cons
      have hslash : (c :: tail ++ rest).head? ≠ some '/' := by simpa using hc
      refine ⟨st, more, _, rest, ?_, htext, hmore, Or.inr ⟨rfl, haxis, hslash, rfl⟩⟩
      rw [beq_eq_false_iff_ne.mpr hslash]
  · rintro ⟨st, more, text, rest, rfl, htext, hmore, rfl | ⟨-, haxis, hslash, rfl⟩⟩
    · rw [st.axis.head?_separator]
      exact .absolute nofun (.cons htext hmore)
    · rw [beq_eq_false_iff_ne.mpr hslash]
      exact .relative haxis htext hmore

namespace Reader

variable {s rest : List Char}

theorem exists_spelled_of_nameTest {t : NodeTest} (hdot : s.head? ≠ some '.')
    (h : nameTest s = .ok (t, rest)) :
    ∃ test, s = test ++ rest ∧ t.Spelled .accepted test := by
  unfold nameTest name at h
  dsimp only at h
  split at h
  · cases h
  · next hne =>
    split at h
    · cases h
    · obtain ⟨rfl, rfl⟩ := Prod.mk.inj (Except.ok.inj h)
      refine ⟨s.takeWhile isNameChar, List.takeWhile_append_dropWhile.symm, by simp, ?_, trivial⟩
      rw [String.toList_ofList]
      refine ⟨by simpa using hne, List.all_takeWhile, fun hhead => hdot ?_⟩
      rw [List.head?_takeWhile] at hhead
      exact (Option.filter_eq_some_iff.mp hhead).1

theorem exists_spelled_of_attributeTest {t : NodeTest} (h : attributeTest s = .ok (t, rest)) :
    ∃ test, '@' :: s = test ++ rest ∧ t.Spelled g test := by
  unfold attributeTest name at h
  dsimp only at h
  split at h
  · cases h
  · next hne =>
    obtain ⟨rfl, rfl⟩ := Prod.mk.inj (Except.ok.inj h)
    refine ⟨'@' :: s.takeWhile isNameChar, by simp, by simp, ?_⟩
    rw [String.toList_ofList]
    exact ⟨by simpa using hne, List.all_takeWhile⟩

theorem exists_spelled_of_nodeTest {t : NodeTest} (h : nodeTest s = .ok (t, rest)) :
    ∃ test, s = test ++ rest ∧ t.Spelled .accepted test := by
  unfold nodeTest at h
  split at h
  · next after htext =>
    obtain ⟨rfl, rfl⟩ := Prod.mk.inj (Except.ok.inj h)
    exact ⟨_, Text.stripStart?_eq_some.mp htext, rfl⟩
  · next after hnode _ =>
    obtain ⟨rfl, rfl⟩ := Prod.mk.inj (Except.ok.inj h)
    exact ⟨_, Text.stripStart?_eq_some.mp hnode, Or.inr rfl⟩
  · obtain ⟨rfl, rfl⟩ := Prod.mk.inj (Except.ok.inj h)
    exact ⟨['*'], rfl, Or.inl rfl⟩
  · exact exists_spelled_of_attributeTest h
  · cases h
  · obtain ⟨rfl, rfl⟩ := Prod.mk.inj (Except.ok.inj h)
    exact ⟨['.'], rfl, rfl⟩
  · next hdot _ _ =>
    refine exists_spelled_of_nameTest (fun hhead => ?_) h
    obtain ⟨after, rfl⟩ := List.head?_eq_some_iff.mp hhead
    exact hdot after rfl

theorem nodeTest_of_spelled {t : NodeTest} {test : List Char} (h : t.Spelled g test)
    (hrest : EndsTest rest) : nodeTest (test ++ rest) = .ok (t, rest) := by
  cases t with
  | name n =>
    obtain ⟨rfl, hn, -⟩ := h
    rw [nodeTest_append hn hrest, String.ofList_toList]
  | any => obtain rfl | rfl := h <;> rfl
  | self =>
    obtain rfl := h
    cases rest with
    | nil => rfl
    | cons c rest => obtain rfl | rfl := hrest c rfl <;> rfl
  | attr n =>
    obtain ⟨rfl, hn, hall⟩ := h
    have hread := name_append (List.all_eq_true.mp hall) hrest.isNameChar
    have hne : n.toList.isEmpty = false := by simpa using hn
    change attributeTest (n.toList ++ rest) = _
    simp only [attributeTest, hread, hne, Bool.false_eq_true, ↓reduceIte, String.ofList_toList]
  | text =>
    obtain rfl := h
    rfl

theorem exists_bracketed_of_predicates {fuel : Nat} {ps : List Predicate}
    (h : predicates fuel s = .ok (ps, rest)) :
    ∃ brackets, s = brackets ++ rest ∧ Bracketed .accepted ps brackets := by
  induction fuel generalizing s ps with
  | zero =>
    obtain ⟨rfl, rfl⟩ := Prod.mk.inj (Except.ok.inj h)
    exact ⟨[], rfl, .nil⟩
  | succ fuel ih =>
    unfold predicates at h
    split at h
    · next heq =>
      obtain rfl := Nat.succ.inj heq
      obtain ⟨⟨p, s₁⟩, hp, h⟩ := bind_eq_ok.mp h
      obtain ⟨⟨ps', s₂⟩, hps, hok⟩ := bind_eq_ok.mp h
      obtain ⟨rfl, rfl⟩ := Prod.mk.inj (Except.ok.inj hok)
      obtain ⟨body, rfl, hbody⟩ := predicate_eq_ok.mp hp
      obtain ⟨brackets, rfl, hbrackets⟩ := ih hps
      exact ⟨_, by simp, .cons hbody hbrackets⟩
    · obtain ⟨rfl, rfl⟩ := Prod.mk.inj (Except.ok.inj h)
      exact ⟨[], rfl, .nil⟩

theorem predicates_of_bracketed {ps : List Predicate} {brackets : List Char}
    (h : Bracketed .accepted ps brackets) (hrest : rest.head? ≠ some '[') {fuel : Nat}
    (hfuel : brackets.length ≤ fuel) : predicates fuel (brackets ++ rest) = .ok (ps, rest) := by
  induction h generalizing fuel with
  | nil => exact predicates_none fuel hrest
  | @cons p ps body brackets hp _ ih =>
    obtain ⟨fuel, rfl⟩ := Nat.exists_eq_add_one_of_ne_zero (Nat.ne_of_gt (Nat.zero_lt_of_lt hfuel))
    have hbody : predicate (body ++ ']' :: (brackets ++ rest)) = .ok (p, brackets ++ rest) :=
      predicate_eq_ok.mpr ⟨body, rfl, hp⟩
    have hless : brackets.length ≤ fuel := by
      simp at hfuel
      omega
    rw [List.cons_append, List.append_assoc, List.cons_append, predicates, hbody]
    simp only [bind, Except.bind, ih hless, pure, Except.pure]

theorem endsTest_append {ps : List Predicate} {brackets : List Char} (h : Bracketed g ps brackets)
    (hrest : EndsStep rest) : EndsTest (brackets ++ rest) := by
  cases h with
  | nil => exact fun c hc => Or.inr (hrest c hc)
  | cons => exact fun c hc => Or.inl (Option.some.inj hc).symm

theorem endsStep_of_separated {sts : List Step} (h : Separated g sts s) : EndsStep s := by
  cases h with
  | nil => nofun
  | @cons st => cases haxis : st.axis <;> exact fun c hc => (Option.some.inj hc).symm

theorem stands_of_separator {first : Bool} {st : Step} {text : List Char}
    (h : separator first s = .ok (st.axis, text ++ rest)) : Stands first st text rest s := by
  unfold separator at h
  split at h
  · obtain ⟨haxis, rfl⟩ := Prod.mk.inj (Except.ok.inj h)
    exact Or.inl (by rw [← haxis]; rfl)
  · obtain ⟨haxis, rfl⟩ := Prod.mk.inj (Except.ok.inj h)
    exact Or.inl (by rw [← haxis]; rfl)
  · next hslash =>
    split at h
    · next hfirst =>
      obtain ⟨haxis, rfl⟩ := Prod.mk.inj (Except.ok.inj h)
      refine Or.inr ⟨hfirst, haxis.symm, fun hhead => ?_, rfl⟩
      obtain ⟨after, heq⟩ := List.head?_eq_some_iff.mp hhead
      exact hslash after heq
    · cases h

theorem separator_of_stands {first : Bool} {st : Step} {text : List Char}
    (htext : st.Spelled g text) (h : Stands first st text rest s) :
    separator first s = .ok (st.axis, text ++ rest) := by
  obtain ⟨c, more, rfl, hc⟩ := htext.exists_cons
  obtain rfl | ⟨hfirst, haxis, hslash, rfl⟩ := h
  · cases st.axis with
    | descendant => rfl
    | child =>
      unfold separator
      split
      · next heq => exact absurd (List.cons.inj (List.cons.inj heq).2).1 hc
      · next heq =>
        obtain rfl := (List.cons.inj heq).2
        rfl
      · next hnot => exact absurd rfl (hnot _)
  · unfold separator
    split
    · next heq => exact absurd (List.cons.inj heq).1 hc
    · next heq => exact absurd (List.cons.inj heq).1 hc
    · rw [if_pos hfirst, haxis]

theorem exists_spelled_of_step {fuel : Nat} {first : Bool} {st : Step}
    (h : step fuel first s = .ok (st, rest)) :
    ∃ text, st.Spelled .accepted text ∧ Stands first st text rest s := by
  obtain ⟨⟨axis, s₁⟩, haxis, h⟩ := bind_eq_ok.mp h
  dsimp only at h
  split at h
  · cases h
  obtain ⟨⟨t, s₂⟩, ht, h⟩ := bind_eq_ok.mp h
  obtain ⟨⟨ps, s₃⟩, hps, hok⟩ := bind_eq_ok.mp h
  obtain ⟨rfl, rfl⟩ := Prod.mk.inj (Except.ok.inj hok)
  obtain ⟨test, rfl, htest⟩ := exists_spelled_of_nodeTest ht
  obtain ⟨brackets, rfl, hbrackets⟩ := exists_bracketed_of_predicates hps
  rw [← List.append_assoc] at haxis
  exact ⟨test ++ brackets, ⟨test, brackets, rfl, htest, hbrackets⟩, stands_of_separator haxis⟩

theorem step_of_spelled {fuel : Nat} {first : Bool} {st : Step} {text : List Char}
    (htext : st.Spelled .accepted text) (h : Stands first st text rest s) (hrest : EndsStep rest)
    (hfuel : text.length ≤ fuel + 1) : step fuel first s = .ok (st, rest) := by
  have haxis := separator_of_stands htext h
  obtain ⟨test, brackets, rfl, htest, hbrackets⟩ := htext
  have hlength := List.length_pos_of_ne_nil htest.ne_nil
  rw [List.length_append] at hfuel
  have htest' := nodeTest_of_spelled htest (endsTest_append hbrackets hrest)
  have hps : predicates fuel (brackets ++ rest) = .ok (st.predicates, rest) :=
    predicates_of_bracketed hbrackets hrest.head? (by omega)
  have hne : (test ++ (brackets ++ rest)).isEmpty = false := by simp [htest.ne_nil]
  rw [List.append_assoc] at haxis
  simp only [step, haxis, hne, htest', hps, bind, Except.bind, pure, Except.pure,
    Bool.false_eq_true, ↓reduceIte]

theorem steps_succ {fuel : Nat} {first : Bool} {sts : List Step} :
    steps (fuel + 1) first s = .ok sts ↔ ∃ st rest, step fuel first s = .ok (st, rest) ∧
      (rest = [] ∧ sts = [st] ∨
        rest ≠ [] ∧ ∃ more, steps fuel false rest = .ok more ∧ sts = st :: more) := by
  rw [steps, bind_eq_ok]
  constructor
  · rintro ⟨⟨st, rest⟩, hst, h⟩
    refine ⟨st, rest, hst, ?_⟩
    dsimp only at h
    split at h
    · next hnil => exact Or.inl ⟨by simpa using hnil, (Except.ok.inj h).symm⟩
    · next hne =>
      obtain ⟨more, hmore, hok⟩ := bind_eq_ok.mp h
      exact Or.inr ⟨by simpa using hne, more, hmore, (Except.ok.inj hok).symm⟩
  · rintro ⟨st, rest, hst, ⟨rfl, rfl⟩ | ⟨hne, more, hmore, rfl⟩⟩
    · exact ⟨_, hst, rfl⟩
    · refine ⟨_, hst, ?_⟩
      dsimp only
      rw [if_neg (by simpa using hne), hmore]
      rfl

/-- What is read as steps begins with a step, behind which all others have separators. -/
theorem exists_separated_of_steps {fuel : Nat} {first : Bool} {sts : List Step}
    (h : steps fuel first s = .ok sts) (hfuel : s.length ≤ fuel) (hne : s ≠ []) :
    ∃ st more text rest, sts = st :: more ∧ st.Spelled .accepted text ∧
      Separated .accepted more rest ∧ Stands first st text rest s := by
  induction fuel generalizing first s sts with
  | zero => exact absurd (List.length_eq_zero_iff.mp (Nat.le_zero.mp hfuel)) hne
  | succ fuel ih =>
    obtain ⟨st, rest, hst, h⟩ := steps_succ.mp h
    obtain ⟨text, htext, hstands⟩ := exists_spelled_of_step hst
    obtain ⟨rfl, rfl⟩ | ⟨hrest, more, hmore, rfl⟩ := h
    · exact ⟨st, [], text, [], rfl, htext, .nil, hstands⟩
    · have hlength := hstands.length_le
      have hpos := htext.length_pos
      obtain ⟨st', more, text', rest', rfl, htext', hseparated, hstands'⟩ :=
        ih hmore (by omega) hrest
      obtain rfl | ⟨hfirst, -⟩ := hstands'
      · exact ⟨st, _, text, _, rfl, htext, .cons htext' hseparated, hstands⟩
      · cases hfirst

theorem steps_of_separated {fuel : Nat} {first : Bool} {st : Step} {more : List Step}
    {text : List Char} (htext : st.Spelled .accepted text) (hmore : Separated .accepted more rest)
    (h : Stands first st text rest s) (hfuel : s.length ≤ fuel) :
    steps fuel first s = .ok (st :: more) := by
  have hpos := htext.length_pos
  have hlength := h.length_le
  induction fuel generalizing first st more text rest s with
  | zero => omega
  | succ fuel ih =>
    -- A step has a character at least, so a unit of fuel less is enough for what is in brackets.
    have hst : step fuel first s = .ok (st, rest) :=
      step_of_spelled htext h (endsStep_of_separated hmore) (by omega)
    refine steps_succ.mpr ⟨st, rest, hst, ?_⟩
    cases hmore with
    | nil => exact Or.inl ⟨rfl, rfl⟩
    | @cons st' more text' rest' htext' hmore =>
      have hstands : Stands false st' text' rest' (st'.axis.separator ++ (text' ++ rest')) :=
        Or.inl rfl
      have hne : st'.axis.separator ++ (text' ++ rest') ≠ [] :=
        List.append_ne_nil_of_left_ne_nil st'.axis.isSolid_separator.ne_nil _
      exact Or.inr ⟨hne, _, ih htext' hmore hstands (by omega) htext'.length_pos
        hstands.length_le, rfl⟩

end Reader

/-- An expression is read as a path when, without the blanks around it, it is spelled as one. -/
theorem parse_eq_ok {text : String} {path : Path} :
    parse text = .ok path ↔ path.Spelled .accepted (Text.trim text.toList) := by
  unfold parse parseChars
  generalize Text.trim text.toList = s
  dsimp only
  constructor
  · intro h
    split at h
    · cases h
    · next hne =>
      split at h
      · next sts hsts =>
        obtain rfl := Except.ok.inj h
        obtain ⟨st, more, text, rest, rfl, hstands⟩ :=
          Reader.exists_separated_of_steps hsts (Nat.le_refl _) (by simpa using hne)
        exact Path.spelled_iff.mpr ⟨st, more, text, rest, rfl, hstands⟩
      · cases h
  · intro h
    rw [if_neg (by simpa using h.isSolid.ne_nil)]
    obtain ⟨st, more, text, rest, rfl, htext, hmore, hstands⟩ := Path.spelled_iff.mp h
    rw [Reader.steps_of_separated htext hmore hstands (Nat.le_refl _)]

end Replay.XPath
