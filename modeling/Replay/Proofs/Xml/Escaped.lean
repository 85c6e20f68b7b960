import Replay.Proofs.Xml.Escaping
import Replay.Proofs.Xml.Rewriting
set_option autoImplicit false

namespace Replay.Xml.Repair

def IsReferenceChar (c : Char) : Prop := c.isAlphanum ∨ c = '#' ∨ c = ';'

instance (c : Char) : Decidable (IsReferenceChar c) := inferInstanceAs (Decidable (_ ∨ _))

theorem IsReferenceName.isReferenceChar {name : List Char} (h : IsReferenceName name) :
    ∀ c ∈ name, IsReferenceChar c := fun c hc => (h.isAlphanum_or c hc).imp_right Or.inl

theorem isReference_append_cons {c : Char} (hc : ¬ IsReferenceChar c) (front back : List Char) :
    isReference (front ++ c :: back) = isReference front := by
  rw [Bool.eq_iff_iff]
  constructor
  · intro h
    obtain ⟨name, rest, hname, heq⟩ := isReference_iff.mp h
    have hsplit : front ++ c :: back = (name ++ [';']) ++ rest := by simp [heq]
    obtain ⟨more, hmore, hcons⟩ | ⟨more, hfront, -⟩ := List.append_eq_append_iff.mp hsplit
    · cases more with
      | nil =>
        rw [List.append_nil] at hmore
        exact isReference_iff.mpr ⟨name, [], hname, hmore.symm⟩
      | cons x more =>
        -- The text would end inside of the reference, which would go on with the character.
        obtain ⟨rfl, -⟩ := List.cons.inj hcons
        have hmem : c ∈ name ++ [';'] := by simp [hmore]
        obtain hmem | hmem := List.mem_append.mp hmem
        · exact absurd (hname.isReferenceChar c hmem) hc
        · rw [List.mem_singleton.mp hmem] at hc
          exact absurd (by decide) hc
    · exact isReference_iff.mpr ⟨name, more, hname, by simp [hfront]⟩
  · exact fun h => isReference_append h _

theorem escapeAmpersands_append_cons {c : Char} (hne : c ≠ '&') (hc : ¬ IsReferenceChar c)
    (front back : List Char) : escapeAmpersands (front ++ c :: back) =
      escapeAmpersands front ++ c :: escapeAmpersands back := by
  induction front with
  | nil => exact escapeAmpersands_cons_of_ne hne back
  | cons x front ih =>
    rw [List.cons_append, escapeAmpersands_cons, escapeAmpersands_cons, ih, putAmpersand,
      putAmpersand, isReference_append_cons hc]
    split <;> simp

/-- Some ampersands are written as references to themselves; everything else stays. -/
inductive Escapes : List Char → List Char → Prop where
  | nil : Escapes [] []
  | kept (c : Char) {s t : List Char} (h : Escapes s t) : Escapes (c :: s) (c :: t)
  | escaped {s t : List Char} (h : Escapes s t) : Escapes ('&' :: s) ("&amp;".toList ++ t)

theorem escapes_escapeAmpersands (s : List Char) : Escapes s (escapeAmpersands s) := by
  induction s with
  | nil => exact .nil
  | cons c s ih =>
    rw [escapeAmpersands_cons, putAmpersand]
    split
    · next h =>
      rw [h.1]
      exact .escaped ih
    · exact .kept c ih

namespace Escapes

theorem refl (s : List Char) : Escapes s s := by
  induction s with
  | nil => exact .nil
  | cons c s ih => exact .kept c ih

theorem exists_of_append {s front back : List Char} (hfront : '&' ∉ front)
    (h : Escapes s (front ++ back)) : ∃ rest, s = front ++ rest ∧ Escapes rest back := by
  induction front generalizing s with
  | nil => exact ⟨s, rfl, h⟩
  | cons c front ih =>
    obtain ⟨hc, hfront⟩ := not_or.mp (mt List.mem_cons.mpr hfront)
    generalize htext : c :: front ++ back = t at h
    cases h with
    | nil => cases htext
    | kept x h =>
      obtain ⟨rfl, rfl⟩ := List.cons.inj htext
      obtain ⟨rest, rfl, hrest⟩ := ih hfront h
      exact ⟨rest, rfl, hrest⟩
    | escaped h => exact absurd (List.cons.inj htext).1.symm hc

section

variable {s t : List Char} (h : Escapes s t)
include h

theorem append {s' t' : List Char} (h' : Escapes s' t') : Escapes (s ++ s') (t ++ t') := by
  induction h with
  | nil => exact h'
  | kept c _ ih => exact .kept c ih
  | escaped _ ih => exact .escaped ih

theorem head?_eq : t.head? = s.head? := by
  cases h <;> rfl

theorem mem {c : Char} (hc : c ∈ t) : c ∈ s ∨ c ∈ "&amp;".toList := by
  induction h with
  | nil => cases hc
  | kept x _ ih =>
    obtain rfl | hc := List.mem_cons.mp hc
    · exact Or.inl List.mem_cons_self
    · exact (ih hc).imp_left (List.mem_cons_of_mem x)
  | escaped _ ih =>
    obtain hc | hc := List.mem_append.mp hc
    · exact Or.inr hc
    · exact (ih hc).imp_left (List.mem_cons_of_mem '&')

theorem getLast?_eq_some {c : Char} (hc : c ∉ "&;".toList) :
    t.getLast? = some c ↔ s.getLast? = some c := by
  have hand : '&' ≠ c := fun heq => hc (by simp [← heq])
  have hsemicolon : ';' ≠ c := fun heq => hc (by simp [← heq])
  induction h with
  | nil => rfl
  | @kept x s t h ih =>
    cases s with
    | nil => cases h; rfl
    | cons y s =>
      obtain ⟨t, rfl⟩ := List.head?_eq_some_iff.mp h.head?_eq
      rw [List.getLast?_cons_cons, List.getLast?_cons_cons]
      exact ih
  | @escaped s t h ih =>
    cases s with
    | nil =>
      cases h
      exact iff_of_false (fun heq => hsemicolon (Option.some.inj heq))
        (fun heq => hand (Option.some.inj heq))
    | cons y s =>
      obtain ⟨t, rfl⟩ := List.head?_eq_some_iff.mp h.head?_eq
      have hword : ("&amp;".toList ++ y :: t).getLast? = (y :: t).getLast? := by
        rw [List.getLast?_append, List.getLast?_cons, Option.some_or]
      rw [hword, List.getLast?_cons_cons]
      exact ih

theorem stays {quote : Option Char} (hquote : IsQuote quote) : (Stays quote t ↔ Stays quote s) ∧
    t.foldl quoteAfter quote = s.foldl quoteAfter quote := by
  induction h generalizing quote with
  | nil => exact ⟨Iff.rfl, rfl⟩
  | kept c _ ih =>
    obtain ⟨hstays, hsame⟩ := ih (isQuote_quoteAfter hquote c)
    rw [Stays, Stays, hstays, List.foldl_cons, List.foldl_cons, hsame]
    exact ⟨Iff.rfl, rfl⟩
  | @escaped s t _ ih =>
    obtain ⟨hword, hafter⟩ := stays_plain (s := "&amp;".toList) hquote (by simp [Mode.IsPlain])
    obtain ⟨hone, hafter'⟩ := stays_plain (s := ['&']) hquote (by simp [Mode.IsPlain])
    have hsplit : '&' :: s = ['&'] ++ s := rfl
    rw [hsplit, stays_append, stays_append, List.foldl_append, List.foldl_append, hafter, hafter',
      and_iff_right hword, and_iff_right hone]
    exact ih hquote

end

theorem exists_cons {c : Char} {s t : List Char} (h : Escapes (c :: s) t) :
    ∃ more, t = c :: more ∧ ∀ x ∈ more, x ∈ s ∨ x ∈ "&amp;".toList := by
  cases h with
  | kept _ h => exact ⟨_, rfl, fun x hx => h.mem hx⟩
  | @escaped _ t h =>
    refine ⟨"amp;".toList ++ t, rfl, fun x hx => ?_⟩
    obtain hx | hx := List.mem_append.mp hx
    · exact Or.inr (List.mem_cons_of_mem '&' hx)
    · exact h.mem hx

end Escapes

theorem isReference_escapeAmpersands_iff {s : List Char} :
    isReference (escapeAmpersands s) ↔ isReference s := by
  refine ⟨fun h => ?_, isReference_escapeAmpersands⟩
  obtain ⟨name, rest, hname, heq⟩ := isReference_iff.mp h
  have hescapes := escapes_escapeAmpersands s
  have hsplit : name ++ ';' :: rest = name ++ [';'] ++ rest := by simp
  rw [heq, hsplit] at hescapes
  obtain ⟨more, rfl, -⟩ := hescapes.exists_of_append (by simpa using hname.no_ampersand)
  exact isReference_iff.mpr ⟨name, more, hname, by simp⟩

theorem escapeAmpersands_bare {s : List Char} (h : ¬ isReference s) :
    escapeAmpersands ('&' :: s) = '&' :: (['a', 'm', 'p'] ++ ';' :: escapeAmpersands s) := by
  have hbare : (!isReference (escapeAmpersands s)) = true := by
    simp [Bool.eq_false_iff.mpr (mt isReference_escapeAmpersands_iff.mp h)]
  rw [escapeAmpersands_cons, putAmpersand, if_pos ⟨rfl, hbare⟩]
  rfl

theorem head?_escapeAmpersands (s : List Char) : (escapeAmpersands s).head? = s.head? :=
  (escapes_escapeAmpersands s).head?_eq

theorem not_isReferenceChar_of_isStop {c : Char} (h : IsStop c) : ¬ IsReferenceChar c ∧ c ≠ '&' := by
  obtain h | rfl := h
  · simp only [isSpace, Bool.or_eq_true, beq_iff_eq] at h
    obtain ((rfl | rfl) | rfl) | rfl := h <;> decide
  · decide

theorem notMem_amp_of_isStop {c : Char} (h : IsStop c) : c ∉ "&amp;".toList := by
  have hall : ("&amp;".toList.all fun x => x = '&' ∨ IsReferenceChar x) = true := by decide
  obtain ⟨hchar, hand⟩ := not_isReferenceChar_of_isStop h
  intro hmem
  exact (of_decide_eq_true (List.all_eq_true.mp hall c hmem)).elim hand hchar

theorem piecewise_escapeAmpersands : Piecewise escapeAmpersands where
  head?_eq := head?_escapeAmpersands
  append_cons hc := by
    obtain ⟨hchar, hand⟩ := not_isReferenceChar_of_isStop hc
    exact escapeAmpersands_append_cons hand hchar
  mem {s c} hc h := ((escapes_escapeAmpersands s).mem h).resolve_right (notMem_amp_of_isStop hc)
  getLast?_iff {s c} hc := by
    have hends : "&;".toList ⊆ "&amp;".toList := by decide
    exact (escapes_escapeAmpersands s).getLast?_eq_some (mt (hends ·) (notMem_amp_of_isStop hc))

/-- Escaping a text escapes the texts of its tags. -/
theorem readAlike_escapeAmpersands {m : Mode} {s : List Char} (h : m.Reading s)
    (hworded : m.Worded) :
    ReadAlike (Markup.rewritten escapeAmpersands) m s (escapeAmpersands s) := by
  induction h with
  | nil => exact .nil
  | @outside m htag c s _ ih =>
    have hnext := ih (Mode.worded_step hworded c)
    have hkept : ReadAlike (Markup.rewritten escapeAmpersands) m (c :: s) (c :: escapeAmpersands s) :=
      .cons (fun mk hmk => by rw [(Mode.outside_step htag c).2 mk hmk]; rfl) hnext
    by_cases hc : c = '&'
    · subst hc
      obtain heq | heq := escapeAmpersands_ampersand s
      · rwa [heq]
      · obtain ⟨hyield, hafter, hemits⟩ := Mode.ampersand_outside hworded.keyed htag
        rw [heq]
        refine ReadAlike.append (u := ['&']) ?_ hafter hnext
        rw [hemits, Mode.emits_cons, hyield]
        rfl
    · rwa [escapeAmpersands_cons_of_ne hc]
  | @mark c hc s _ ih =>
    have hne : c ≠ '&' := by
      obtain rfl | rfl := hc <;> decide
    rw [escapeAmpersands_cons_of_ne hne]
    refine .cons ?_ (ih (Mode.worded_step hworded c))
    obtain rfl | rfl := hc <;> simp [Mode.yield, Mode.effect, bracketEffect]
  | @unclosed s hhead hstays =>
    refine .bracket hhead (head?_escapeAmpersands s) (.unclosed hstays ?_)
    exact ((escapes_escapeAmpersands s).stays (Or.inl rfl)).1.mpr hstays
  | @tag inner rest hhead hstays hclosed _ ih =>
    obtain ⟨hstays', hsame⟩ := (escapes_escapeAmpersands inner).stays (Or.inl rfl)
    have hhead' := Mode.unmarked_tag hhead rest
    refine .bracket hhead' (head?_escapeAmpersands _) ?_
    rw [escapeAmpersands_append_cons (by decide) (by decide)]
    exact .closed hstays hclosed (hstays'.mpr hstays) (hsame.trans hclosed)
      (piecewise_escapeAmpersands.ofTag inner) (ih trivial)

/-- Every ampersand that is left begins a reference. -/
theorem referenced_escapeAmpersands (s : List Char) : Referenced (escapeAmpersands s) := by
  induction s with
  | nil => trivial
  | cons c s ih =>
    rw [escapeAmpersands_cons, putAmpersand]
    split
    · have hname : IsReferenceName ['a', 'm', 'p'] :=
        .named (by decide) (List.all_eq_true.mp (by decide))
      exact referenced_reference hname ih
    · next h =>
      refine ⟨fun hc => ?_, ih⟩
      simpa [hc] using h

theorem escapeAmpersands_of_referenced {s : List Char} (h : Referenced s) :
    escapeAmpersands s = s := by
  induction s with
  | nil => rfl
  | cons c s ih =>
    rw [escapeAmpersands_cons, ih h.2, putAmpersand]
    refine if_neg fun hand => ?_
    have hreference := h.1 hand.1
    simp [hreference] at hand

end Replay.Xml.Repair
