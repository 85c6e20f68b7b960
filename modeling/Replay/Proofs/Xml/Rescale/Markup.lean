import Replay.Proofs.Xml.Rescale.Bounds
import Replay.Proofs.Xml.Rewriting
set_option autoImplicit false

/-!
Rescaling a text rescales the texts of its tags and nothing else of its markup (`Mode.scan_map`). A
bounds attribute outside of tags is read like any other text without angle brackets
(`Mode.bounds_outside`); inside of a tag it leaves open the quote that was open in front of it
(`stays_bounds`).
-/

namespace Replay.Xml

open Rescale

variable (change : Rect → Rect)

def Markup.rescaled : Markup → Markup
  | .opening name attributes =>
    .opening (mapBoundsChars change name) (mapBoundsChars change attributes)
  | .void name attributes => .void (mapBoundsChars change name) (mapBoundsChars change attributes)
  | .closing name => .closing (mapBoundsChars change name)
  | .characters => .characters

theorem not_isBoundsChar_of_isSpace {c : Char} (h : isSpace c) : ¬ IsBoundsChar c := by
  simp only [isSpace, Bool.or_eq_true, beq_iff_eq] at h
  obtain ((rfl | rfl) | rfl) | rfl := h <;> decide

theorem not_isBoundsChar_of_isStop {c : Char} (h : IsStop c) : ¬ IsBoundsChar c := by
  obtain h | rfl := h
  · exact not_isBoundsChar_of_isSpace h
  · decide

theorem piecewise_mapBounds : Piecewise (mapBoundsChars change) where
  head?_eq := head?_map change
  append_cons hc := map_append_cons change (not_isBoundsChar_of_isStop hc)
  mem hc hmem := (mem_map change hmem).resolve_right (not_isBoundsChar_of_isStop hc)
  getLast?_iff _ := by rw [getLast?_map]

theorem Markup.rescaled_eq : Markup.rescaled change = Markup.rewritten (mapBoundsChars change) := by
  funext m
  cases m <;> rfl

/-- A bounds attribute leaves open what was open in front of it, be it inside of a value. -/
theorem stays_bounds {quote : Option Char} (h : IsQuote quote) {value : List Char}
    (hvalue : ∀ c ∈ value, IsCornerChar c) (rest : List Char) :
    (Stays quote (attributeStart ++ (value ++ '"' :: rest)) ↔ Stays quote rest) ∧
      (attributeStart ++ (value ++ '"' :: rest)).foldl quoteAfter quote =
        rest.foldl quoteAfter quote := by
  have hplain : ∀ c ∈ value, Mode.IsPlain c := by
    refine fun c hc => ⟨?_, ?_, ?_⟩ <;>
    · rintro rfl
      exact absurd (hvalue _ hc) (by decide)
  have hstart : Stays quote attributeStart := by
    obtain rfl | rfl | rfl := h <;> simp [attributeStart, Stays]
  have hmid : IsQuote (attributeStart.foldl quoteAfter quote) := by
    obtain rfl | rfl | rfl := h
    · exact Or.inr (Or.inl rfl)
    · exact Or.inl rfl
    · exact Or.inr (Or.inr rfl)
  have hback : quoteAfter (attributeStart.foldl quoteAfter quote) '"' = quote := by
    obtain rfl | rfl | rfl := h <;> rfl
  obtain ⟨hstays, hsame⟩ := stays_plain hmid hplain
  have hclose : Stays (attributeStart.foldl quoteAfter quote) ('"' :: rest) ↔ Stays quote rest := by
    rw [Stays, hback]
    exact and_iff_right fun _ => by decide
  rw [stays_append, stays_append, List.foldl_append, List.foldl_append, hsame, List.foldl_cons,
    hback, hclose, and_iff_right hstart, and_iff_right hstays]
  exact ⟨Iff.rfl, rfl⟩

theorem stays_map {quote : Option Char} (h : IsQuote quote) (s : List Char) :
    (Stays quote (mapBoundsChars change s) ↔ Stays quote s) ∧
      (mapBoundsChars change s).foldl quoteAfter quote = s.foldl quoteAfter quote := by
  induction cut s generalizing quote with
  | nil => exact ⟨Iff.rfl, rfl⟩
  | @char c s hc _ ih =>
    obtain ⟨hstays, hsame⟩ := ih (isQuote_quoteAfter h c)
    rw [map_cons_of_none change hc, Stays, Stays, hstays, List.foldl_cons, List.foldl_cons, hsame]
    exact ⟨Iff.rfl, rfl⟩
  | @bounds value rest hvalue _ ih =>
    have hwritten := stays_bounds h (forall_mem_mapValue change hvalue) (mapBoundsChars change rest)
    have hfound := stays_bounds h hvalue.forall_mem rest
    rw [map_bounds change hvalue]
    exact ⟨hwritten.1.trans ((ih h).1.trans hfound.1.symm),
      hwritten.2.trans ((ih h).2.trans hfound.2.symm)⟩

namespace Mode

/-- Outside of tags, with nothing pending that text without angle brackets could complete. -/
def Settled : Mode → Prop
  | .content seen => seen
  | .doctype named _ => named
  | .comment _ | .characterSection _ | .instruction _ | .broken => True
  | _ => False

theorem settled_step {m : Mode} (h : m.Settled) {c : Char} (hlt : c ≠ '<') (hgt : c ≠ '>') :
    (m.step c).Settled ∧ m.yield c = [] ∧ (m.step c).step '"' = m.step '"' := by
  have hno : ¬ (m.IsContent ∧ c = '<') := fun hc => hlt hc.2
  rw [step_of_effect hno, yield_of_effect hno]
  cases m <;> simp only [effect, contentEffect, commentEffect, characterSectionEffect,
    doctypeEffect, instructionEffect, Settled] at h ⊢ <;> grind [step, effect, contentEffect,
    commentEffect, characterSectionEffect, doctypeEffect, instructionEffect, Settled]

theorem settled_after {m : Mode} (h : m.Settled) {s : List Char} (hlt : '<' ∉ s) (hgt : '>' ∉ s) :
    (m.after s).step '"' = m.step '"' ∧ m.emits (s ++ ['"']) = [] := by
  induction s generalizing m with
  | nil =>
    obtain ⟨-, hyield, -⟩ := settled_step h (c := '"') (by decide) (by decide)
    rw [List.nil_append, emits_cons, hyield]
    exact ⟨rfl, rfl⟩
  | cons c s ih =>
    obtain ⟨hc, hlt⟩ := not_or.mp (mt List.mem_cons.mpr hlt)
    obtain ⟨hc', hgt⟩ := not_or.mp (mt List.mem_cons.mpr hgt)
    obtain ⟨hsettled, hyield, hsame⟩ := settled_step h (Ne.symm hc) (Ne.symm hc')
    obtain ⟨hafter, hemits⟩ := ih hsettled hlt hgt
    rw [after_cons, hafter, hsame, List.cons_append, emits_cons, hyield, hemits]
    exact ⟨rfl, rfl⟩

theorem settled_of_breaks {m : Mode} (h : m.effect 'b' = .goOn .broken) :
    (m.step 'b').Settled ∧ m.yield 'b' = [] ∧ (m.step 'b').step '"' = m.step 'b' := by
  have hno : ¬ (m.IsContent ∧ 'b' = '<') := fun h => absurd h.2 (by decide)
  rw [step_of_effect hno, yield_of_effect hno, h]
  exact ⟨trivial, rfl, rfl⟩

theorem settled_b {m : Mode} (hworded : m.Worded) (htag : ¬ m.InTag) :
    (m.step 'b').Settled ∧ m.yield 'b' = [] ∧ (m.step 'b').step '"' = m.step 'b' := by
  cases m with
  | bracket => exact absurd (Or.inl rfl) htag
  | tag quote body => exact absurd (Or.inr ⟨quote, body, rfl⟩) htag
  | content seen => cases seen <;> exact ⟨rfl, rfl, rfl⟩
  | doctype named depth => cases named <;> exact ⟨rfl, rfl, rfl⟩
  | sectionKeyword missing =>
    exact settled_of_breaks (sectionKeyword_breaks fun hmem =>
      absurd (hworded.subset hmem) (by decide))
  | doctypeKeyword missing =>
    exact settled_of_breaks (doctypeKeyword_breaks fun hmem =>
      absurd (hworded.subset hmem) (by decide))
  | instruction closable => cases closable <;> exact ⟨trivial, rfl, rfl⟩
  | _ => exact ⟨trivial, rfl, rfl⟩

/-- Outside of tags a bounds attribute is read like its first letter. -/
theorem bounds_outside {m : Mode} (hworded : m.Worded) (htag : ¬ m.InTag) {value : List Char}
    (hvalue : ∀ c ∈ value, IsCornerChar c) (rest : List Char) :
    m.after (attributeStart ++ (value ++ '"' :: rest)) = (m.step 'b').after rest ∧
      m.emits (attributeStart ++ (value ++ '"' :: rest)) = (m.step 'b').emits rest := by
  have hsplit : attributeStart ++ (value ++ '"' :: rest) =
      'b' :: (attributeStart.tail ++ value ++ ['"'] ++ rest) := by simp [attributeStart]
  have havoid (c : Char) (hstart : c ∉ attributeStart.tail) (hc : ¬ IsCornerChar c) :
      c ∉ attributeStart.tail ++ value := by
    rw [List.mem_append, not_or]
    exact ⟨hstart, fun hmem => hc (hvalue c hmem)⟩
  obtain ⟨hsettled, hyield, hsame⟩ := settled_b hworded htag
  obtain ⟨hafter, hemits⟩ := settled_after hsettled (havoid '<' (by decide) (by decide))
    (havoid '>' (by decide) (by decide))
  have hmid : (m.step 'b').after (attributeStart.tail ++ value ++ ['"']) = m.step 'b' := by
    rw [after_append]
    exact hafter.trans hsame
  rw [hsplit, after_cons, emits_cons, hyield, after_append, hmid, emits_append, hemits, hmid]
  exact ⟨rfl, rfl⟩

section Scan

variable {m : Mode} {s : List Char}

def ScansAlike (m : Mode) (s : List Char) : Prop :=
  m.emits (mapBoundsChars change s) = (m.emits s).map (Markup.rescaled change) ∧
    ((m.after (mapBoundsChars change s)).IsContent ↔ (m.after s).IsContent)

variable {change}

theorem scansAlike_cons {c : Char}
    (hmap : mapBoundsChars change (c :: s) = c :: mapBoundsChars change s)
    (hyield : ∀ mk ∈ m.yield c, mk = .characters) (h : ScansAlike change (m.step c) s) :
    ScansAlike change m (c :: s) := by
  have halike := ReadAlike.cons (fun mk hmk => by rw [hyield mk hmk]; rfl) h
  rwa [← hmap] at halike

theorem scansAlike_bounds (hworded : m.Worded) (htag : ¬ m.InTag) {value : List Char}
    (hvalue : IsCorners value) (h : ScansAlike change (m.step 'b') s) :
    ScansAlike change m (attributeStart ++ (value ++ '"' :: s)) := by
  obtain ⟨hafter, hemits⟩ := bounds_outside hworded htag hvalue.forall_mem s
  obtain ⟨hafter', hemits'⟩ := bounds_outside hworded htag
    (forall_mem_mapValue change hvalue) (mapBoundsChars change s)
  rw [ScansAlike, map_bounds change hvalue, hafter, hemits, hafter', hemits']
  exact h

/-- A tag that is not closed leaves nothing; otherwise the text goes on behind it. -/
theorem scansAlike_tag (h : ∀ inner rest, s = inner ++ '>' :: rest →
      ScansAlike change (content false) rest) : ScansAlike change (tag none []) s := by
  have hquote : IsQuote none := Or.inl rfl
  obtain hstays | ⟨inner, rest, hstays, hnone, rfl⟩ := stays_cases none s
  · exact ReadAlike.unclosed hstays ((stays_map change hquote s).1.mpr hstays)
  · obtain ⟨hstays', hsame⟩ := stays_map change hquote inner
    have htag : Markup.ofTag (mapBoundsChars change inner) = (Markup.ofTag inner).rescaled change := by
      rw [Markup.rescaled_eq, (piecewise_mapBounds change).ofTag]
    have halike := ReadAlike.closed hstays hnone (hstays'.mpr hstays) (hsame.trans hnone) htag
      (h inner rest rfl)
    rwa [← map_append_cons change (by decide)] at halike

theorem scansAlike_bracket {c : Char} (hmark : c ≠ '!') (hquestion : c ≠ '?')
    (h : ScansAlike change (tag none []) (c :: s)) : ScansAlike change bracket (c :: s) :=
  ReadAlike.bracket (fun _ hx => Option.some.inj hx ▸ ⟨hmark, hquestion⟩) (head?_map change _) h

end Scan

/-- Rescaling a text rescales its tags. -/
theorem scan_map {m : Mode} (hworded : m.Worded) (hm : m = .bracket ∨ ¬ m.InTag) (s : List Char) :
    ScansAlike change m s := by
  induction hn : s.length using Nat.strongRecOn generalizing m s with
  | ind n ih =>
    have hworded' : (content false).Worded := trivial
    have hcontent : ¬ (content false).InTag := by simp [InTag]
    obtain rfl | htag := hm
    · cases s with
      | nil => exact ⟨rfl, Iff.rfl⟩
      | cons c s =>
        have hlt : s.length < n := by simp [← hn]
        by_cases hc : c = '!' ∨ c = '?'
        · refine scansAlike_cons (map_cons_of_ne change ?_ s) ?_
            (ih _ hlt (worded_step hworded c) (Or.inr ?_) s rfl)
          all_goals obtain rfl | rfl := hc <;> simp [yield, step, effect, bracketEffect, InTag]
        · obtain ⟨hmark, hquestion⟩ := not_or.mp hc
          refine scansAlike_bracket hmark hquestion (scansAlike_tag fun inner rest hs => ?_)
          refine ih rest.length ?_ hworded' (Or.inr hcontent) rest rfl
          simp only [← hn, hs, List.length_append, List.length_cons]
          omega
    · cases cut s with
      | nil => exact ⟨rfl, Iff.rfl⟩
      | @char c s hc =>
        obtain ⟨hnext, hyield⟩ := outside_step htag c
        exact scansAlike_cons (map_cons_of_none change hc) hyield
          (ih s.length (by simp [← hn]) (worded_step hworded c) hnext s rfl)
      | @bounds value rest hvalue =>
        refine scansAlike_bounds hworded htag hvalue ?_
        refine ih rest.length ?_ (worded_step hworded 'b') (outside_step htag 'b').1 rest rfl
        simp only [← hn, List.length_append, List.length_cons]
        omega

theorem scan_content_map (seen : Bool) (s : List Char) : ScansAlike change (content seen) s := by
  have hworded : (content seen).Worded := trivial
  exact scan_map change hworded (Or.inr (by simp [InTag])) s

end Mode

theorem fromMarkup_map (s : List Char) :
    fromMarkup (mapBoundsChars change s) = mapBoundsChars change (fromMarkup s) := by
  obtain ⟨hs, hnil⟩ | ⟨lead, rest, hlead, rfl, hrest⟩ := fromMarkup_cases s
  · rw [hnil]
    refine fromMarkup_of_notMem fun hmem => ?_
    exact (mem_map change hmem).elim hs (by decide)
  · rw [hrest, map_append_cons change (by decide), map_cons_of_ne change (by decide)]
    exact fromMarkup_append (fun hmem => (mem_map change hmem).elim hlead (by decide)) _

end Replay.Xml
