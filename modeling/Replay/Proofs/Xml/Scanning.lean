import Replay.Xml.Markup
set_option autoImplicit false

/-!
The scanner without its positions: every character takes a mode to a mode (`Mode.step`) and may end
constructs (`Mode.yield`), so that a text takes modes to modes (`Mode.after`) and leaves markup
(`Mode.emits`). Both split where the text does, and they are what scanning finds (`mode_scan`,
`markup_scan`). Inside of a tag only the open quote counts: a text that stays in the tag belongs to it
(`Mode.scan_stays`), and the tag is the text up to the bracket that closes it (`Mode.scan_closed`).
-/

namespace Replay.Xml

namespace Markup

theorem ofTag_of_head? {body : List Char} (h : body.head? ≠ some '/') : ofTag body =
    match Text.stripEnd? ['/'] body with
    | some inner => .void (inner.takeWhile (!isSpace ·)) (inner.dropWhile (!isSpace ·))
    | none => .opening (body.takeWhile (!isSpace ·)) (body.dropWhile (!isSpace ·)) := by
  unfold ofTag
  split
  · exact absurd rfl h
  · rfl

end Markup

namespace Mode

def IsContent (m : Mode) : Prop := ∃ seen, m = .content seen

def step (m : Mode) (c : Char) : Mode :=
  match m, decide (c = '<') with
  | .content _, true => .bracket
  | m, _ =>
    match m.effect c with
    | .goOn m => m
    | .finish _ => .content false

def yield (m : Mode) (c : Char) : List Markup :=
  match m, decide (c = '<') with
  | .content seen, true => if seen then [.characters] else []
  | m, _ =>
    match m.effect c with
    | .goOn _ => []
    | .finish markup => markup.toList

theorem step_of_effect {m : Mode} {c : Char} (h : ¬ (m.IsContent ∧ c = '<')) :
    m.step c = match m.effect c with
      | .goOn m => m
      | .finish _ => .content false := by
  unfold step
  split
  · next seen hc => exact absurd ⟨⟨seen, rfl⟩, of_decide_eq_true hc⟩ h
  · rfl

theorem yield_of_effect {m : Mode} {c : Char} (h : ¬ (m.IsContent ∧ c = '<')) :
    m.yield c = match m.effect c with
      | .goOn _ => []
      | .finish markup => markup.toList := by
  unfold yield
  split
  · next seen hc => exact absurd ⟨⟨seen, rfl⟩, of_decide_eq_true hc⟩ h
  · rfl

def after (m : Mode) (s : List Char) : Mode := s.foldl step m

def emits (m : Mode) : List Char → List Markup
  | [] => []
  | c :: s => m.yield c ++ (m.step c).emits s

@[simp] theorem after_nil (m : Mode) : m.after [] = m := rfl

@[simp] theorem after_cons (m : Mode) (c : Char) (s : List Char) :
    m.after (c :: s) = (m.step c).after s := rfl

@[simp] theorem after_append (m : Mode) (a b : List Char) :
    m.after (a ++ b) = (m.after a).after b := List.foldl_append

@[simp] theorem emits_nil (m : Mode) : m.emits [] = [] := rfl

theorem emits_cons (m : Mode) (c : Char) (s : List Char) :
    m.emits (c :: s) = m.yield c ++ (m.step c).emits s := rfl

theorem emits_append (m : Mode) (a b : List Char) :
    m.emits (a ++ b) = m.emits a ++ (m.after a).emits b := by
  induction a generalizing m with
  | nil => rfl
  | cons c a ih => rw [List.cons_append, emits_cons, ih, emits_cons, List.append_assoc, after_cons]

end Mode

namespace Scanner

theorem feed_eq (s : Scanner) (c : Char) :
    (s.feed c).mode = s.mode.step c ∧
      (s.feed c).found.map Placed.markup = (s.mode.yield c).reverse ++ s.found.map Placed.markup := by
  obtain ⟨mode, position, mark, found⟩ := s
  by_cases hcontent : mode.IsContent ∧ c = '<'
  · obtain ⟨⟨seen, rfl⟩, rfl⟩ := hcontent
    cases seen <;> exact ⟨rfl, rfl⟩
  · rw [Mode.step_of_effect hcontent, Mode.yield_of_effect hcontent]
    unfold feed
    split
    · next seen hmode hc => exact absurd ⟨⟨seen, hmode⟩, of_decide_eq_true hc⟩ hcontent
    · cases mode.effect c with
      | goOn m => exact ⟨rfl, rfl⟩
      | finish markup => cases markup <;> exact ⟨rfl, rfl⟩

theorem run_eq (s : Scanner) (text : List Char) :
    (s.run text).mode = s.mode.after text ∧
      (s.run text).found.map Placed.markup =
        (s.mode.emits text).reverse ++ s.found.map Placed.markup := by
  induction text generalizing s with
  | nil => exact ⟨rfl, rfl⟩
  | cons c text ih =>
    obtain ⟨hmode, hfound⟩ := feed_eq s c
    obtain ⟨hmode', hfound'⟩ := ih (s.feed c)
    rw [hmode] at hmode' hfound'
    refine ⟨hmode', hfound'.trans ?_⟩
    rw [hfound, Mode.emits_cons, List.reverse_append, List.append_assoc]

end Scanner

namespace Mode

theorem eq_gt_of_finish {m : Mode} {c : Char} {markup : Option Markup}
    (h : m.effect c = .finish markup) : c = '>' := by
  cases m <;> simp only [effect, contentEffect, bracketEffect, tagEffect, declarationEffect,
    commentEffect, sectionKeywordEffect, characterSectionEffect, doctypeKeywordEffect,
    doctypeEffect, instructionEffect] at h <;> grind

theorem isContent_of_goOn {m : Mode} {c : Char} {seen : Bool}
    (h : m.effect c = .goOn (.content seen)) : m.IsContent := by
  cases m <;> simp only [effect, contentEffect, bracketEffect, tagEffect, declarationEffect,
    commentEffect, sectionKeywordEffect, characterSectionEffect, doctypeKeywordEffect,
    doctypeEffect, instructionEffect] at h <;> grind [IsContent]

theorem isContent_of_step {m : Mode} {c : Char} (h : (m.step c).IsContent) (hc : c ≠ '>') :
    m.IsContent ∧ c ≠ '<' := by
  by_cases hcontent : m.IsContent ∧ c = '<'
  · obtain ⟨⟨seen, rfl⟩, rfl⟩ := hcontent
    obtain ⟨_, h⟩ := h
    cases h
  · rw [step_of_effect hcontent] at h
    cases heffect : m.effect c with
    | goOn m' =>
      rw [heffect] at h
      obtain ⟨seen, rfl⟩ := h
      have hm := isContent_of_goOn heffect
      exact ⟨hm, fun hlt => hcontent ⟨hm, hlt⟩⟩
    | finish markup => exact absurd (eq_gt_of_finish heffect) hc

theorem isContent_of_after {m : Mode} {s : List Char} (h : (m.after s).IsContent) (hs : '>' ∉ s) :
    m.IsContent ∧ '<' ∉ s := by
  induction s generalizing m with
  | nil => exact ⟨h, List.not_mem_nil⟩
  | cons c s ih =>
    obtain ⟨hc, hs⟩ := not_or.mp (mt List.mem_cons.mpr hs)
    obtain ⟨hstep, hlt⟩ := ih h hs
    obtain ⟨hm, hne⟩ := isContent_of_step hstep (Ne.symm hc)
    refine ⟨hm, ?_⟩
    rintro (_ | ⟨_, hmem⟩)
    · exact hne rfl
    · exact hlt hmem

theorem step_content {seen : Bool} {c : Char} (hc : c ≠ '<') :
    (content seen).step c = .content (seen || !isSpace c) := by
  rw [step_of_effect fun h => hc h.2]
  rfl

theorem yield_content {seen : Bool} {c : Char} (hc : c ≠ '<') : (content seen).yield c = [] := by
  rw [yield_of_effect fun h => hc h.2]
  rfl

theorem after_emits_content (seen : Bool) {s : List Char} (hs : '<' ∉ s) :
    ((content seen).after s).IsContent ∧ (content seen).emits s = [] := by
  induction s generalizing seen with
  | nil => exact ⟨⟨seen, rfl⟩, rfl⟩
  | cons c s ih =>
    obtain ⟨hc, hs⟩ := not_or.mp (mt List.mem_cons.mpr hs)
    rw [after_cons, emits_cons, step_content (Ne.symm hc), yield_content (Ne.symm hc)]
    exact ih _ hs

end Mode

def fromMarkup (s : List Char) : List Char := s.dropWhile (· != '<')

theorem fromMarkup_of_notMem {s : List Char} (h : '<' ∉ s) : fromMarkup s = [] := by
  rw [← List.append_nil s, fromMarkup, List.dropWhile_append_of_pos, List.dropWhile_nil]
  intro c hc
  have hne : c ≠ '<' := fun heq => h (heq ▸ hc)
  simpa using hne

theorem fromMarkup_append {lead : List Char} (h : '<' ∉ lead) (rest : List Char) :
    fromMarkup (lead ++ '<' :: rest) = '<' :: rest := by
  rw [fromMarkup, List.dropWhile_append_of_pos]
  · rfl
  · intro c hc
    have hne : c ≠ '<' := fun heq => h (heq ▸ hc)
    simpa using hne

@[simp] theorem fromMarkup_cons (rest : List Char) : fromMarkup ('<' :: rest) = '<' :: rest := rfl

theorem fromMarkup_cases (s : List Char) :
    ('<' ∉ s ∧ fromMarkup s = []) ∨
      ∃ lead rest, '<' ∉ lead ∧ s = lead ++ '<' :: rest ∧ fromMarkup s = '<' :: rest := by
  by_cases hs : '<' ∈ s
  · obtain ⟨lead, rest, rfl, hlead⟩ := List.eq_append_cons_of_mem hs
    exact Or.inr ⟨lead, rest, hlead, rfl, fromMarkup_append hlead rest⟩
  · exact Or.inl ⟨hs, fromMarkup_of_notMem hs⟩

namespace Mode

theorem emits_fromMarkup (seen : Bool) (s : List Char) :
    ∃ lead, (lead = [] ∨ lead = [.characters]) ∧
      (content seen).emits s = lead ++ (content false).emits (fromMarkup s) ∧
      (((content seen).after s).IsContent ↔ ((content false).after (fromMarkup s)).IsContent) := by
  obtain ⟨hs, hnil⟩ | ⟨lead, rest, hlead, rfl, hrest⟩ := fromMarkup_cases s
  · obtain ⟨hafter, hemits⟩ := after_emits_content seen hs
    rw [hnil, hemits]
    exact ⟨[], Or.inl rfl, rfl, iff_of_true hafter ⟨false, rfl⟩⟩
  · obtain ⟨⟨seen', hafter⟩, hemits⟩ := after_emits_content seen hlead
    rw [hrest, emits_append, after_append, hafter, hemits]
    refine ⟨(content seen').yield '<', ?_, rfl, Iff.rfl⟩
    cases seen'
    · exact Or.inl rfl
    · exact Or.inr rfl

theorem after_fromMarkup {seen : Bool} {s : List Char} (h : '<' ∈ s) :
    (content seen).after s = (content false).after (fromMarkup s) := by
  obtain ⟨hs, -⟩ | ⟨lead, rest, hlead, rfl, hrest⟩ := fromMarkup_cases s
  · exact absurd h hs
  · obtain ⟨⟨seen', hafter⟩, -⟩ := after_emits_content seen hlead
    rw [hrest, after_append, hafter]
    rfl

theorem append_of_unseen {m : Mode} {front : List Char} (hafter : m.after front = m)
    (hemits : m.emits front = []) (s : List Char) :
    m.emits (front ++ s) = m.emits s ∧ m.after (front ++ s) = m.after s := by
  rw [emits_append, after_append, hafter, hemits]
  exact ⟨rfl, rfl⟩

def InTag (m : Mode) : Prop := m = .bracket ∨ ∃ quote body, m = .tag quote body

theorem not_isContent_tag (quote : Option Char) (body : List Char) :
    ¬ (tag quote body).IsContent := nofun

def IsPlain (c : Char) : Prop := c ≠ '>' ∧ c ≠ '"' ∧ c ≠ '\''

end Mode

def quoteAfter (quote : Option Char) (c : Char) : Option Char :=
  match quote with
  | some q => if c = q then none else some q
  | none => if c = '\'' || c = '"' then some c else none

/-- No character of a text closes the tag that is being read. -/
def Stays (quote : Option Char) : List Char → Prop
  | [] => True
  | c :: s => (quote = none → c ≠ '>') ∧ Stays (quoteAfter quote c) s

theorem stays_append {quote : Option Char} {a b : List Char} :
    Stays quote (a ++ b) ↔ Stays quote a ∧ Stays (a.foldl quoteAfter quote) b := by
  induction a generalizing quote with
  | nil => simp [Stays]
  | cons c a ih => rw [List.cons_append, Stays, Stays, ih, List.foldl_cons, and_assoc]

def IsQuote (quote : Option Char) : Prop := quote = none ∨ quote = some '"' ∨ quote = some '\''

theorem isQuote_quoteAfter {quote : Option Char} (h : IsQuote quote) (c : Char) :
    IsQuote (quoteAfter quote c) := by
  obtain rfl | rfl | rfl := h <;> grind [quoteAfter, IsQuote]

theorem stays_plain {quote : Option Char} (h : IsQuote quote) {s : List Char}
    (hs : ∀ c ∈ s, Mode.IsPlain c) : Stays quote s ∧ s.foldl quoteAfter quote = quote := by
  induction s with
  | nil => exact ⟨trivial, rfl⟩
  | cons c s ih =>
    obtain ⟨⟨hgt, hdouble, hsingle⟩, hs⟩ := List.forall_mem_cons.mp hs
    have hquote : quoteAfter quote c = quote := by
      obtain rfl | rfl | rfl := h <;> simp [quoteAfter, hdouble, hsingle]
    rw [Stays, List.foldl_cons, hquote]
    exact ⟨⟨fun _ => hgt, (ih hs).1⟩, (ih hs).2⟩

/-- A text in a tag goes on to its end, or up to the bracket that closes the tag. -/
theorem stays_cases (quote : Option Char) (s : List Char) : Stays quote s ∨
    ∃ inner rest, Stays quote inner ∧ inner.foldl quoteAfter quote = none ∧
      s = inner ++ '>' :: rest := by
  induction s generalizing quote with
  | nil => exact Or.inl trivial
  | cons c s ih =>
    by_cases hc : quote = none ∧ c = '>'
    · obtain ⟨rfl, rfl⟩ := hc
      exact Or.inr ⟨[], s, trivial, rfl, rfl⟩
    · have hstay : quote = none → c ≠ '>' := fun hq heq => hc ⟨hq, heq⟩
      obtain hs | ⟨inner, rest, hinner, hnone, rfl⟩ := ih (quoteAfter quote c)
      · exact Or.inl ⟨hstay, hs⟩
      · exact Or.inr ⟨c :: inner, rest, ⟨hstay, hinner⟩, hnone, rfl⟩

namespace Mode

theorem tag_stays {quote : Option Char} (body : List Char) {c : Char}
    (h : quote = none → c ≠ '>') :
    (tag quote body).step c = .tag (quoteAfter quote c) (c :: body) ∧
      (tag quote body).yield c = [] := by
  have hno : ¬ ((tag quote body).IsContent ∧ c = '<') := fun hc => not_isContent_tag _ _ hc.1
  have heffect : (tag quote body).effect c = .goOn (.tag (quoteAfter quote c) (c :: body)) := by
    cases quote with
    | some q => rfl
    | none => exact if_neg (h rfl)
  rw [step_of_effect hno, yield_of_effect hno, heffect]
  exact ⟨rfl, rfl⟩

theorem scan_stays {quote : Option Char} (body : List Char) {s : List Char} (h : Stays quote s) :
    (tag quote body).after s = .tag (s.foldl quoteAfter quote) (s.reverse ++ body) ∧
      (tag quote body).emits s = [] := by
  induction s generalizing quote body with
  | nil => exact ⟨rfl, rfl⟩
  | cons c s ih =>
    obtain ⟨hc, hs⟩ := h
    obtain ⟨hstep, hyield⟩ := tag_stays body hc
    obtain ⟨hafter, hemits⟩ := ih (c :: body) hs
    rw [after_cons, emits_cons, hstep, hyield, hafter, hemits]
    simp

/-- A tag is the text up to the bracket that closes it. -/
theorem scan_closed {quote : Option Char} (body : List Char) {inner : List Char}
    (h : Stays quote inner) (hquote : inner.foldl quoteAfter quote = none) (rest : List Char) :
    (tag quote body).after (inner ++ '>' :: rest) = (content false).after rest ∧
      (tag quote body).emits (inner ++ '>' :: rest) =
        .ofTag (body.reverse ++ inner) :: (content false).emits rest := by
  obtain ⟨hafter, hemits⟩ := scan_stays body h
  rw [hquote] at hafter
  have hbody : (inner.reverse ++ body).reverse = body.reverse ++ inner := by simp
  rw [after_append, emits_append, hafter, hemits, after_cons, emits_cons, ← hbody]
  exact ⟨rfl, rfl⟩

theorem emits_tag {quote : Option Char} {body s : List Char}
    (h : ((tag quote body).after s).IsContent) :
    ∃ inner rest, s = inner ++ '>' :: rest ∧
      (tag quote body).emits s = .ofTag (body.reverse ++ inner) :: (content false).emits rest := by
  obtain hstays | ⟨inner, rest, hstays, hquote, rfl⟩ := stays_cases quote s
  · rw [(scan_stays body hstays).1] at h
    exact absurd h (not_isContent_tag _ _)
  · exact ⟨inner, rest, rfl, (scan_closed body hstays hquote rest).2⟩

theorem tag_plain (body : List Char) {s : List Char} (hs : ∀ c ∈ s, IsPlain c) :
    (tag none body).after s = .tag none (s.reverse ++ body) ∧ (tag none body).emits s = [] := by
  obtain ⟨hstays, hquote⟩ := stays_plain (Or.inl rfl) hs
  obtain ⟨hafter, hemits⟩ := scan_stays body hstays
  rw [hquote] at hafter
  exact ⟨hafter, hemits⟩

/-- Directly after the bracket a tag begins, unless something else does. -/
theorem bracket_eq_tag {c : Char} (hmark : c ≠ '!') (hquestion : c ≠ '?') (s : List Char) :
    bracket.after (c :: s) = (tag none []).after (c :: s) ∧
      bracket.emits (c :: s) = (tag none []).emits (c :: s) := by
  have hno : ¬ (bracket.IsContent ∧ c = '<') := nofun
  have hno' : ¬ ((tag none []).IsContent ∧ c = '<') := nofun
  have heffect : bracket.effect c = (tag none []).effect c :=
    (if_neg hmark).trans (if_neg hquestion)
  rw [after_cons, after_cons, emits_cons, emits_cons, step_of_effect hno, step_of_effect hno',
    yield_of_effect hno, yield_of_effect hno', heffect]
  exact ⟨rfl, rfl⟩

def Worded : Mode → Prop
  | .sectionKeyword missing => missing <:+ ['C', 'D', 'A', 'T', 'A', '[']
  | .doctypeKeyword missing => missing <:+ ['O', 'C', 'T', 'Y', 'P', 'E']
  | _ => True

theorem sectionKeyword_breaks {missing : List Char} {c : Char} (h : c ∉ missing) :
    (sectionKeyword missing).effect c = .goOn .broken := by
  cases missing with
  | nil => rfl
  | cons k more => exact if_pos fun hk : c = k => h (hk ▸ List.mem_cons_self)

theorem doctypeKeyword_breaks {missing : List Char} {c : Char} (h : c.toUpper ∉ missing) :
    (doctypeKeyword missing).effect c = .goOn .broken := by
  cases missing with
  | nil => rfl
  | cons k more => exact if_pos fun hk : c.toUpper = k => h (hk ▸ List.mem_cons_self)

theorem worded_step {m : Mode} (h : m.Worded) (c : Char) : (m.step c).Worded := by
  by_cases hcontent : m.IsContent ∧ c = '<'
  · obtain ⟨⟨seen, rfl⟩, rfl⟩ := hcontent
    trivial
  · have hmore {k : Char} {more keyword : List Char} (hk : k :: more <:+ keyword) :
        more <:+ keyword := (List.suffix_cons k more).trans hk
    rw [step_of_effect hcontent]
    cases m <;> simp only [effect, contentEffect, bracketEffect, tagEffect, declarationEffect,
      commentEffect, sectionKeywordEffect, characterSectionEffect, doctypeKeywordEffect,
      doctypeEffect, instructionEffect] <;> grind [Worded]

theorem eq_characters_of_yield {m : Mode} {c : Char} (hc : c ≠ '>') {mk : Markup}
    (h : mk ∈ m.yield c) : mk = .characters := by
  by_cases hcontent : m.IsContent ∧ c = '<'
  · obtain ⟨⟨seen, rfl⟩, rfl⟩ := hcontent
    cases seen
    · cases h
    · exact List.mem_singleton.mp h
  · rw [yield_of_effect hcontent] at h
    cases heffect : m.effect c with
    | goOn m' =>
      rw [heffect] at h
      cases h
    | finish markup => exact absurd (eq_gt_of_finish heffect) hc

theorem eq_characters_of_emits {m : Mode} {s : List Char} (hs : '>' ∉ s) {mk : Markup}
    (h : mk ∈ m.emits s) : mk = .characters := by
  induction s generalizing m with
  | nil => cases h
  | cons c s ih =>
    obtain ⟨hc, hs⟩ := not_or.mp (mt List.mem_cons.mpr hs)
    rw [emits_cons] at h
    obtain h | h := List.mem_append.mp h
    · exact eq_characters_of_yield (Ne.symm hc) h
    · exact ih hs h

end Mode

theorem mode_scan (text : List Char) :
    (scan text).mode = (Mode.content false).after (withoutByteOrderMark text) :=
  (Scanner.run_eq {} _).1

theorem markup_scan (text : List Char) :
    (scan text).markup.map Placed.markup =
      (Mode.content false).emits (withoutByteOrderMark text) := by
  have hfound := (Scanner.run_eq {} (withoutByteOrderMark text)).2
  rw [Scanner.markup, List.map_reverse, scan, hfound]
  simp

theorem atRest_iff (s : Scanner) : s.atRest = true ↔ s.mode.IsContent := by
  unfold Scanner.atRest Mode.IsContent
  cases s.mode <;> simp

theorem fromMarkup_withoutByteOrderMark (text : List Char) :
    fromMarkup (withoutByteOrderMark text) = fromMarkup text := by
  unfold withoutByteOrderMark
  split
  · rfl
  · rfl

end Replay.Xml
