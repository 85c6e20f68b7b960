import Replay.Proofs.Xml.Escaped
set_option autoImplicit false

/-!
Ampersands in the values of attributes. `Place` follows the attributes of a tag character by character,
so that a text can be written with every ampersand in a value as a reference to itself
(`escapeValues`). Such a text is read like the first with the attributes of its tags written so
(`readAlike_escapeTags`), and they are spelled only if those of the first are
(`Spells.exists_unescaped`).
-/

namespace Replay.Xml

open Repair (Escapes)

inductive Place where
  | lead
  | key
  | before
  | behind
  | value (quote : Char)
  | wrong
  deriving DecidableEq

namespace Place

def isValue : Place → Bool
  | value _ => true
  | _ => false

/-- The place behind a character. A key may begin with an equals sign. -/
def step : Place → Char → Place
  | lead, c => if isSpace c then lead else key
  | key, c => if c = '=' then behind else if isSpace c then before else key
  | before, c => if c = '=' then behind else if isSpace c then before else wrong
  | behind, c => if c = '"' ∨ c = '\'' then value c else if isSpace c then behind else wrong
  | value quote, c => if c = quote then lead else value quote
  | wrong, _ => wrong

def escape : Place → List Char → List Char
  | _, [] => []
  | p, c :: s => (if p.isValue ∧ c = '&' then "&amp;".toList else [c]) ++ (p.step c).escape s

/-- A text leads from one place to another, and no character of it stands in a value. -/
inductive Passes : Place → List Char → Place → Prop where
  | nil {p : Place} : Passes p [] p
  | cons {p q : Place} {c : Char} {s : List Char} (hp : p.isValue = false) (h : Passes (p.step c) s q) :
      Passes p (c :: s) q

variable {p q : Place}

theorem escape_append (a b : List Char) :
    p.escape (a ++ b) = p.escape a ++ (a.foldl step p).escape b := by
  induction a generalizing p with
  | nil => rfl
  | cons c a ih => rw [List.cons_append, escape, escape, ih, List.foldl_cons, List.append_assoc]

theorem escapes_escape (s : List Char) : Escapes s (p.escape s) := by
  induction s generalizing p with
  | nil => exact .nil
  | cons c s ih =>
    rw [escape]
    split
    · next h =>
      rw [h.2]
      exact .escaped ih
    · exact .kept c ih

theorem Passes.append {r : Place} {a b : List Char} (ha : p.Passes a q) (hb : q.Passes b r) :
    p.Passes (a ++ b) r := by
  induction ha with
  | nil => exact hb
  | cons hp _ ih => exact .cons hp (ih hb)

theorem passes_of_step {s : List Char} (hp : p.isValue = false) (h : ∀ c ∈ s, p.step c = p) :
    p.Passes s p := by
  induction s with
  | nil => exact .nil
  | cons c s ih =>
    obtain ⟨hc, hs⟩ := List.forall_mem_cons.mp h
    exact .cons hp (hc.symm ▸ ih hs)

theorem Passes.exists_of_escape {s front back : List Char} (hfront : p.Passes front q)
    (h : p.escape s = front ++ back) : ∃ rest, s = front ++ rest ∧ back = q.escape rest := by
  induction hfront generalizing s with
  | nil => exact ⟨s, rfl, h.symm⟩
  | cons hp _ ih =>
    cases s with
    | nil => cases h
    | cons x s =>
      rw [escape, if_neg (by simp [hp])] at h
      obtain ⟨rfl, htail⟩ := List.cons.inj h
      obtain ⟨rest, rfl, hback⟩ := ih htail
      exact ⟨rest, rfl, hback⟩

theorem exists_of_escape_value {quote : Char} (hquote : quote = '"' ∨ quote = '\'')
    {s raw back : List Char} (hraw : quote ∉ raw) (h : (value quote).escape s = raw ++ quote :: back) :
    ∃ raw' rest, quote ∉ raw' ∧ s = raw' ++ quote :: rest ∧ back = lead.escape rest := by
  induction s generalizing raw with
  | nil => simp [escape] at h
  | cons c s ih =>
    rw [escape] at h
    by_cases hc : c = quote
    · have hand : c ≠ '&' := by
        obtain rfl | rfl := hquote <;> simp [hc]
      rw [if_neg fun h => hand h.2, step, if_pos hc, hc] at h
      cases raw with
      | nil => exact ⟨[], s, List.not_mem_nil, by rw [hc]; rfl, (List.cons.inj h).2.symm⟩
      | cons x raw =>
        obtain ⟨rfl, -⟩ := List.cons.inj h
        exact absurd List.mem_cons_self hraw
    · have hword : ∃ word, quote ∉ word ∧
          (if (value quote).isValue ∧ c = '&' then "&amp;".toList else [c]) = word := by
        refine ⟨_, ?_, rfl⟩
        split
        · obtain rfl | rfl := hquote <;> decide
        · simpa using Ne.symm hc
      obtain ⟨word, hnot, hword⟩ := hword
      rw [hword, step, if_neg hc] at h
      -- The quote is not in what is written for the character, so that it is behind it.
      have hrest : ∃ raw', quote ∉ raw' ∧ (value quote).escape s = raw' ++ quote :: back := by
        obtain ⟨mid, rfl, hmid⟩ | ⟨mid, rfl, hmid⟩ := List.append_eq_append_iff.mp h
        · exact ⟨mid, fun hmem => hraw (List.mem_append_right _ hmem), hmid⟩
        · cases mid with
          | nil => exact ⟨[], List.not_mem_nil, hmid.symm⟩
          | cons x mid =>
            obtain ⟨rfl, -⟩ := List.cons.inj hmid
            exact absurd (by simp) hnot
      obtain ⟨raw', hraw', hs⟩ := hrest
      obtain ⟨more, rest, hmore, rfl, hback⟩ := ih hraw' hs
      exact ⟨c :: more, rest, by simp [hmore, Ne.symm hc], rfl, hback⟩

theorem passes_spaces {s : List Char} (h : ∀ c ∈ s, isSpace c) : lead.Passes s lead :=
  passes_of_step rfl fun c hc => by simp [step, h c hc]

theorem ne_of_isSpace {c : Char} (h : isSpace c) : c ≠ '=' ∧ c ≠ '"' ∧ c ≠ '\'' := by
  simp only [isSpace, Bool.or_eq_true, beq_iff_eq] at h
  obtain ((rfl | rfl) | rfl) | rfl := h <;> decide

theorem passes_sign {spaces : List Char} (h : ∀ c ∈ spaces, isSpace c) :
    key.Passes (spaces ++ ['=']) behind := by
  cases spaces with
  | nil => exact .cons rfl .nil
  | cons c spaces =>
    obtain ⟨hc, hspaces⟩ := List.forall_mem_cons.mp h
    have hfirst : key.step c = before := by simp [step, ne_of_isSpace hc, hc]
    have hrest : before.Passes spaces before := passes_of_step rfl fun c hc => by
      simp [step, ne_of_isSpace (hspaces c hc), hspaces c hc]
    exact .cons rfl (hfirst.symm ▸ hrest.append (.cons rfl .nil))

theorem passes_front (w : Spelling) : lead.Passes (w.front ++ [w.quote]) (value w.quote) := by
  have hmore : key.Passes w.more key := passes_of_step rfl fun c hc => by
    have hcontinues := w.continues_more c hc
    simp only [Bool.and_eq_true, bne_iff_ne, Bool.not_eq_true'] at hcontinues
    simp [step, hcontinues]
  have hbehind : behind.Passes w.behind behind := passes_of_step rfl fun c hc => by
    have hspace := w.isSpace_behind c hc
    simp [step, ne_of_isSpace hspace, hspace]
  have hfirst : lead.step w.first = key := by simp [step, w.not_isSpace_first]
  have hquote : behind.step w.quote = value w.quote := if_pos w.quote_eq
  have hsplit : w.front ++ [w.quote] =
      w.lead ++ (w.first :: (w.more ++ ((w.before ++ ['=']) ++ (w.behind ++ [w.quote])))) := by
    simp [Spelling.front, Spelling.key]
  have hend : behind.Passes (w.behind ++ [w.quote]) (value w.quote) :=
    hbehind.append (.cons rfl (hquote ▸ .nil))
  have hkey := hmore.append ((passes_sign w.isSpace_before).append hend)
  exact hsplit ▸ (passes_spaces w.isSpace_lead).append (.cons rfl (hfirst.symm ▸ hkey))

end Place

/-- Attributes that are spelled once their values are escaped are spelled before, with the same keys. -/
theorem Spells.exists_unescaped {ws : List Spelling} {s : List Char}
    (h : Spells ws (Place.lead.escape s)) :
    ∃ ws', Spells ws' s ∧ ws'.map Spelling.key = ws.map Spelling.key := by
  induction ws generalizing s with
  | nil =>
    obtain ⟨trail, htrail, hs⟩ := h
    have htext : Place.lead.escape s = trail ++ [] := by rw [hs]; simp
    obtain ⟨rest, rfl, hrest⟩ := (Place.passes_spaces htrail).exists_of_escape htext
    cases rest with
    | nil => exact ⟨[], ⟨trail, htrail, by simp⟩, rfl⟩
    | cons c rest =>
      rw [Place.escape] at hrest
      split at hrest <;> cases hrest
  | cons w ws ih =>
    obtain ⟨more, hspells, hs⟩ := Spells.cons_iff.mp h
    have htext : Place.lead.escape s =
        (w.front ++ [w.quote]) ++ (w.raw ++ w.quote :: more) := by
      rw [hs, w.text_append]
      simp
    obtain ⟨rest, rfl, hrest⟩ := (Place.passes_front w).exists_of_escape htext
    obtain ⟨raw, tail, hraw, rfl, rfl⟩ :=
      Place.exists_of_escape_value w.quote_eq w.quote_notMem hrest.symm
    obtain ⟨ws', hspells', hkeys⟩ := ih hspells
    refine ⟨w.withRaw raw hraw :: ws', Spells.cons_iff.mpr ⟨tail, hspells', ?_⟩, ?_⟩
    · rw [w.text_withRaw hraw]
      simp
    · rw [List.map_cons, List.map_cons, hkeys]
      rfl

def escapeTag (body : List Char) : List Char :=
  if body.head? = some '/' then body
  else body.takeWhile (!isSpace ·) ++ Place.lead.escape (body.dropWhile (!isSpace ·))

theorem escapes_escapeTag (body : List Char) : Escapes body (escapeTag body) := by
  unfold escapeTag
  split
  · exact .refl body
  · have hname := (Escapes.refl (body.takeWhile (!isSpace ·))).append
      (Place.escapes_escape (p := .lead) (body.dropWhile (!isSpace ·)))
    rwa [List.takeWhile_append_dropWhile] at hname

def Markup.valuesEscaped : Markup → Markup
  | .opening name attributes => .opening name (Place.lead.escape attributes)
  | .void name attributes => .void name (Place.lead.escape attributes)
  | m => m

theorem Markup.isStart_valuesEscaped (m : Markup) : m.valuesEscaped.isStart = m.isStart := by
  cases m <;> rfl

theorem Repair.track_valuesEscaped (names : List (List Char)) (m : Markup) :
    track names m.valuesEscaped = track names m := by
  cases m <;> rfl

section Parts

variable {name attributes slash : List Char} (hname : ∀ c ∈ name, isSpace c = false)
  (hattributes : ∀ c ∈ attributes.head?, isSpace c)
include hname hattributes

theorem splitName : (name ++ attributes).takeWhile (!isSpace ·) = name ∧
    (name ++ attributes).dropWhile (!isSpace ·) = attributes := by
  have hall : ∀ c ∈ name, (!isSpace c) = true := by simpa using hname
  rw [List.takeWhile_append_of_pos hall, List.dropWhile_append_of_pos hall]
  cases attributes with
  | nil => simp
  | cons c attributes =>
    have hc : isSpace c := hattributes c rfl
    simp [hc]

variable (hhead : (name ++ (attributes ++ slash)).head? ≠ some '/')
  (hslash : slash = ['/'] ∨ slash = [] ∧ (name ++ attributes).getLast? ≠ some '/')
include hhead hslash

theorem Markup.ofTag_parts : ofTag (name ++ (attributes ++ slash)) =
    if slash.isEmpty then .opening name attributes else .void name attributes := by
  obtain ⟨htake, hdrop⟩ := splitName hname hattributes
  rw [ofTag_of_head? hhead]
  obtain rfl | ⟨rfl, hlast⟩ := hslash
  · rw [← List.append_assoc, Text.stripEnd?_eq_some.mpr rfl]
    dsimp only
    rw [htake, hdrop]
    rfl
  · have hnone : Text.stripEnd? ['/'] (name ++ attributes) = none := by
      rw [Option.eq_none_iff_forall_ne_some]
      intro inner hinner
      exact hlast (by rw [Text.stripEnd?_eq_some.mp hinner, List.getLast?_concat])
    rw [List.append_nil, hnone]
    dsimp only
    rw [htake, hdrop]
    rfl

theorem escapeTag_parts : escapeTag (name ++ (attributes ++ slash)) =
    name ++ (Place.lead.escape attributes ++ slash) := by
  have hsame (p : Place) : p.escape slash = slash := by
    obtain rfl | ⟨rfl, -⟩ := hslash
    · simp [Place.escape]
    · rfl
  rw [escapeTag, if_neg hhead]
  cases attributes with
  | nil =>
    have hword : ∀ c ∈ name ++ slash, isSpace c = false := by
      intro c hc
      obtain hc | hc := List.mem_append.mp hc
      · exact hname c hc
      · obtain rfl | ⟨rfl, -⟩ := hslash
        · rw [List.mem_singleton.mp hc]
          rfl
        · cases hc
    have hnil : ∀ c ∈ ([] : List Char).head?, isSpace c := nofun
    obtain ⟨htake, hdrop⟩ := splitName hword hnil
    rw [List.append_nil] at htake hdrop
    rw [List.nil_append, htake, hdrop]
    simp [Place.escape]
  | cons c attributes =>
    have hspaced : ∀ x ∈ (c :: attributes ++ slash).head?, isSpace x := hattributes
    obtain ⟨htake, hdrop⟩ := splitName hname hspaced
    rw [htake, hdrop, Place.escape_append, hsame]

end Parts

theorem Markup.exists_parts (body : List Char) : ∃ name attributes slash,
    (∀ c ∈ name, isSpace c = false) ∧ (∀ c ∈ attributes.head?, isSpace c) ∧
      body = name ++ (attributes ++ slash) ∧
      (slash = ['/'] ∨ slash = [] ∧ (name ++ attributes).getLast? ≠ some '/') := by
  have hparts (s : List Char) : ∃ name attributes, (∀ c ∈ name, isSpace c = false) ∧
      (∀ c ∈ attributes.head?, isSpace c) ∧ s = name ++ attributes := by
    refine ⟨s.takeWhile (!isSpace ·), s.dropWhile (!isSpace ·),
      fun c hc => by simpa using List.mem_takeWhile_imp hc, fun c hc => ?_,
      List.takeWhile_append_dropWhile.symm⟩
    have hhead := List.head?_dropWhile_not (!isSpace ·) s
    rw [Option.mem_def.mp hc] at hhead
    simpa using hhead
  by_cases hlast : body.getLast? = some '/'
  · obtain ⟨inner, rfl⟩ := List.getLast?_eq_some_iff.mp hlast
    obtain ⟨name, attributes, hname, hattributes, rfl⟩ := hparts inner
    exact ⟨name, attributes, ['/'], hname, hattributes, List.append_assoc .., Or.inl rfl⟩
  · obtain ⟨name, attributes, hname, hattributes, rfl⟩ := hparts body
    exact ⟨name, attributes, [], hname, hattributes, by rw [List.append_nil], Or.inr ⟨rfl, hlast⟩⟩

theorem Markup.ofTag_escapeTag (body : List Char) :
    ofTag (escapeTag body) = (ofTag body).valuesEscaped := by
  by_cases hhead : body.head? = some '/'
  · obtain ⟨rest, rfl⟩ := List.head?_eq_some_iff.mp hhead
    rfl
  have hescapes := escapes_escapeTag body
  obtain ⟨name, attributes, slash, hname, hattributes, rfl, hslash⟩ := exists_parts body
  have hspaced : ∀ c ∈ (Place.lead.escape attributes).head?, isSpace c := by
    rwa [(Place.escapes_escape attributes).head?_eq]
  have hescaped := (Escapes.refl name).append (Place.escapes_escape (p := .lead) attributes)
  have hslash' : slash = ['/'] ∨
      slash = [] ∧ (name ++ Place.lead.escape attributes).getLast? ≠ some '/' :=
    hslash.imp_right fun h => ⟨h.1, mt (hescaped.getLast?_eq_some (by decide)).mp h.2⟩
  rw [escapeTag_parts hname hattributes hhead hslash] at hescapes ⊢
  have hhead' := hescapes.head?_eq ▸ hhead
  rw [ofTag_parts hname hspaced hhead' hslash', ofTag_parts hname hattributes hhead hslash]
  split <;> rfl

namespace Mode

/-- What is written for a character. A tag is held back until it is read. -/
def written (m : Mode) (c : Char) : List Char :=
  match m.step c, m with
  | tag .., _ => []
  | _, tag _ body => escapeTag body.reverse ++ [c]
  | _, _ => [c]

def escapeTags : Mode → List Char → List Char
  | m, [] =>
    match m with
    | tag _ body => body.reverse
    | _ => []
  | m, c :: s => m.written c ++ (m.step c).escapeTags s

end Mode

/-- The text with every ampersand inside the value of an attribute written as `&amp;`. -/
def escapeValues (content : String) : String :=
  String.ofList ((Mode.content false).escapeTags content.toList)

namespace Mode

theorem step_ne_tag {m : Mode} (htag : ¬ m.InTag) (c : Char) (quote : Option Char)
    (body : List Char) : m.step c ≠ tag quote body := by
  intro heq
  obtain hbracket | hout := (outside_step htag c).1
  · rw [hbracket] at heq
    cases heq
  · exact hout (Or.inr ⟨quote, body, heq⟩)

theorem written_outside {m : Mode} (htag : ¬ m.InTag) (c : Char) : m.written c = [c] := by
  unfold written
  split
  · next heq => exact absurd heq (step_ne_tag htag c _ _)
  · exact absurd (Or.inr ⟨_, _, rfl⟩) htag
  · rfl

theorem written_stays {quote : Option Char} {c : Char} (h : quote = none → c ≠ '>')
    (body : List Char) : (tag quote body).written c = [] := by
  unfold written
  rw [(tag_stays body h).1]

theorem escapeTags_stays {quote : Option Char} {s : List Char} (h : Stays quote s)
    (body : List Char) : (tag quote body).escapeTags s = body.reverse ++ s := by
  induction s generalizing quote body with
  | nil => simp [escapeTags]
  | cons c s ih =>
    rw [escapeTags, written_stays h.1, (tag_stays body h.1).1, ih h.2]
    simp

theorem escapeTags_closed {quote : Option Char} {inner : List Char} (h : Stays quote inner)
    (hclosed : inner.foldl quoteAfter quote = none) (body rest : List Char) :
    (tag quote body).escapeTags (inner ++ '>' :: rest) =
      escapeTag (body.reverse ++ inner) ++ '>' :: (content false).escapeTags rest := by
  induction inner generalizing quote body with
  | nil =>
    obtain rfl : quote = none := hclosed
    have hwritten : (tag none body).written '>' = escapeTag body.reverse ++ ['>'] := rfl
    have hstep : (tag none body).step '>' = content false := rfl
    rw [List.nil_append, escapeTags, hwritten, hstep]
    simp
  | cons c inner ih =>
    rw [List.cons_append, escapeTags, written_stays h.1, (tag_stays body h.1).1, ih h.2 hclosed]
    simp

theorem escapeTags_bracket {s : List Char} (h : ∀ c ∈ s.head?, c ≠ '!' ∧ c ≠ '?') :
    bracket.escapeTags s = (tag none []).escapeTags s := by
  cases s with
  | nil => rfl
  | cons c s =>
    obtain ⟨hmark, hquestion⟩ := h c rfl
    have hstep : bracket.step c = (tag none []).step c := (bracket_eq_tag hmark hquestion []).1
    have hwritten : bracket.written c = (tag none []).written c := by
      unfold written
      rw [hstep]
      cases (tag none []).step c <;> rfl
    rw [escapeTags, escapeTags, hstep, hwritten]

theorem escapeTags_mark {c : Char} (hc : c = '!' ∨ c = '?') (s : List Char) :
    bracket.escapeTags (c :: s) = c :: (bracket.step c).escapeTags s := by
  obtain rfl | rfl := hc <;> rfl

end Mode

/-- Escaping the values of a text escapes those of its tags. -/
theorem readAlike_escapeTags {m : Mode} {s : List Char} (h : m.Reading s)
    (hm : ∀ quote body, m ≠ .tag quote body) :
    ReadAlike Markup.valuesEscaped m s (m.escapeTags s) := by
  induction h with
  | @nil m =>
    have hnil : m.escapeTags [] = [] := by
      cases m with
      | tag quote body => exact absurd rfl (hm quote body)
      | _ => rfl
    exact hnil.symm ▸ .nil
  | @outside m htag c s _ ih =>
    rw [Mode.escapeTags, Mode.written_outside htag]
    exact .cons (fun mk hmk => by rw [(Mode.outside_step htag c).2 mk hmk]; rfl)
      (ih (Mode.step_ne_tag htag c))
  | @mark c hc s _ ih =>
    rw [Mode.escapeTags_mark hc]
    obtain rfl | rfl := hc
    · exact .cons nofun (ih nofun)
    · exact .cons nofun (ih nofun)
  | @unclosed s hhead hstays =>
    rw [Mode.escapeTags_bracket hhead, Mode.escapeTags_stays hstays]
    exact .bracket hhead rfl (.unclosed hstays hstays)
  | @tag inner rest hhead hstays hclosed _ ih =>
    have hescapes := escapes_escapeTag inner
    obtain ⟨hstays', hsame⟩ := hescapes.stays (Or.inl rfl)
    have hhead' := Mode.unmarked_tag hhead rest
    rw [Mode.escapeTags_bracket hhead', Mode.escapeTags_closed hstays hclosed]
    refine .bracket hhead' ?_ (.closed hstays hclosed (hstays'.mpr hstays) (hsame.trans hclosed)
      (Markup.ofTag_escapeTag inner) (ih nofun))
    rw [List.reverse_nil, List.nil_append, List.head?_append, List.head?_append, hescapes.head?_eq]
    rfl

theorem fromMarkup_escapeTags (s : List Char) :
    fromMarkup ((Mode.content false).escapeTags s) =
      (Mode.content false).escapeTags (fromMarkup s) := by
  have hlead (seen : Bool) {lead : List Char} (hlead : '<' ∉ lead) (rest : List Char) :
      ∃ seen', (Mode.content seen).escapeTags (lead ++ rest) =
        lead ++ (Mode.content seen').escapeTags rest := by
    induction lead generalizing seen with
    | nil => exact ⟨seen, rfl⟩
    | cons c lead ih =>
      obtain ⟨hc, hlead⟩ := not_or.mp (mt List.mem_cons.mpr hlead)
      obtain ⟨seen', hrest⟩ := ih (seen || !isSpace c) hlead
      refine ⟨seen', ?_⟩
      rw [List.cons_append, Mode.escapeTags, Mode.written_outside (by simp [Mode.InTag]),
        Mode.step_content (Ne.symm hc), hrest]
      rfl
  obtain ⟨hs, hnil⟩ | ⟨lead, rest, hlt, rfl, hfrom⟩ := fromMarkup_cases s
  · obtain ⟨seen, heq⟩ := hlead false hs []
    rw [List.append_nil] at heq
    rw [hnil, heq]
    exact fromMarkup_of_notMem (by simpa [Mode.escapeTags] using hs)
  · obtain ⟨seen, heq⟩ := hlead false hlt ('<' :: rest)
    rw [hfrom, heq]
    exact fromMarkup_append hlt _

end Replay.Xml
