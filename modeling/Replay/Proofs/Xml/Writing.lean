import Replay.Proofs.Xml.Naming
import Replay.Proofs.Xml.Spelling
set_option autoImplicit false

namespace Replay.Xml

namespace Entity

theorem notMem_escape {mark : Char} (h : mark ∈ ['<', '>', '\'', '"']) (s : List Char) :
    mark ∉ escape s := by
  have hchar (c : Char) : mark ∉ escapeChar c := by
    unfold escapeChar
    split
    case h_6 _ hlt hgt _ happ hquote =>
      rw [List.mem_singleton]
      rintro rfl
      simp only [List.mem_cons, List.not_mem_nil, or_false] at h
      exact h.elim hlt fun h => h.elim hgt fun h => h.elim happ hquote
    all_goals
      have hmarks : mark = '<' ∨ mark = '>' ∨ mark = '\'' ∨ mark = '"' := by simpa using h
      obtain rfl | rfl | rfl | rfl := hmarks <;> decide
  intro hmem
  obtain ⟨c, -, hc⟩ := List.mem_flatMap.mp hmem
  exact hchar c hc

theorem expandFrom_escapeChar (done : List Char) (c : Char) (rest : List Char) :
    expandFrom none done (escapeChar c ++ rest) = expandFrom none (c :: done) rest := by
  unfold escapeChar
  split
  case h_6 _ _ _ hand _ _ => exact if_neg hand
  all_goals rfl

theorem expand?_escape (s : List Char) : expand? (escape s) = some s := by
  have hfrom (done : List Char) : expandFrom none done (escape s) = some (done.reverse ++ s) := by
    induction s generalizing done with
    | nil => simp [escape, expandFrom]
    | cons c s ih =>
      rw [escape, List.flatMap_cons, expandFrom_escapeChar]
      change expandFrom none (c :: done) (escape s) = _
      rw [ih]
      simp
  exact hfrom []

end Entity

def IsNameChar (c : Char) : Prop := c.isAlphanum ∨ c = '-'

instance (c : Char) : Decidable (IsNameChar c) := inferInstanceAs (Decidable (_ ∨ _))

namespace IsNameChar

variable {c : Char}

theorem ne (h : IsNameChar c) {x : Char} (hx : ¬ IsNameChar x) : c ≠ x := fun heq => hx (heq ▸ h)

theorem isSpace (h : IsNameChar c) : isSpace c = false := by
  have hspace : c ≠ ' ' := h.ne (by decide)
  have htab : c ≠ '\t' := h.ne (by decide)
  have hreturn : c ≠ '\r' := h.ne (by decide)
  have hnewline : c ≠ '\n' := h.ne (by decide)
  simp [Xml.isSpace, hspace, htab, hreturn, hnewline]

theorem isPlain (h : IsNameChar c) : Mode.IsPlain c :=
  ⟨h.ne (by decide), h.ne (by decide), h.ne (by decide)⟩

end IsNameChar

def IsPlainName (name : List Char) : Prop := name ≠ [] ∧ ∀ c ∈ name, IsNameChar c

instance (name : List Char) : Decidable (IsPlainName name) :=
  haveI := List.decidableBAll IsNameChar name
  inferInstanceAs (Decidable (_ ∧ _))

namespace Attribute

def written (a : Attribute) : List Char :=
  ' ' :: (a.key.toList ++ '=' :: '"' :: (Entity.escape a.value.toList ++ ['"']))

theorem exists_spelling {a : Attribute} (h : IsPlainName a.key.toList) :
    ∃ w : Spelling, w.text = a.written ∧ w.key = a.key.toList ∧ w.attribute? = some a := by
  obtain ⟨hne, hchars⟩ := h
  obtain ⟨first, more, hkey⟩ := List.exists_cons_of_ne_nil hne
  rw [hkey] at hchars
  let w : Spelling :=
    { lead := [' '], first, more, raw := Entity.escape a.value.toList
      not_isSpace_first := (hchars first List.mem_cons_self).isSpace
      continues_more := fun c hc => by
        have hname := hchars c (List.mem_cons_of_mem first hc)
        simp [hname.isSpace, hname.ne (by decide : ¬ IsNameChar '=')]
      quote_notMem := Entity.notMem_escape (by decide) _ }
  have hwkey : w.key = a.key.toList := hkey.symm
  refine ⟨w, ?_, hwkey, ?_⟩
  · rw [Spelling.text, hwkey]
    rfl
  · exact Spelling.attribute?_eq_some.mpr ⟨hwkey.symm, Entity.expand?_escape _⟩

theorem exists_spells {as : List Attribute} (h : ∀ a ∈ as, IsPlainName a.key.toList) :
    ∃ ws, Spells ws (as.flatMap written) ∧ ws.map Spelling.key = as.map (·.key.toList) ∧
      ws.map Spelling.attribute? = as.map some := by
  induction as with
  | nil => exact ⟨[], ⟨[], nofun, rfl⟩, rfl, rfl⟩
  | cons a as ih =>
    obtain ⟨ha, has⟩ := List.forall_mem_cons.mp h
    obtain ⟨w, htext, hkey, hattribute⟩ := exists_spelling ha
    obtain ⟨ws, hspells, hkeys, hattributes⟩ := ih has
    refine ⟨w :: ws, Spells.cons_iff.mpr ⟨_, hspells, by rw [htext]; rfl⟩, ?_, ?_⟩
    · rw [List.map_cons, List.map_cons, hkey, hkeys]
    · rw [List.map_cons, List.map_cons, hattribute, hattributes]

theorem read?_written {as : List Attribute} (h : ∀ a ∈ as, IsPlainName a.key.toList)
    (hnodup : (as.map (·.key)).Nodup) : read? (as.flatMap written) = some as := by
  obtain ⟨ws, hspells, hkeys, hattributes⟩ := exists_spells h
  refine hspells.read?_eq_some.mpr ⟨?_, hattributes⟩
  have hkeys' : ws.map Spelling.key = (as.map (·.key)).map String.toList := by
    rw [hkeys, List.map_map]
    rfl
  rw [hkeys']
  exact List.pairwise_map.mpr (hnodup.imp fun hne heq => hne (String.toList_inj.mp heq))

theorem stays_written {a : Attribute} (h : IsPlainName a.key.toList) :
    Stays none a.written ∧ a.written.foldl quoteAfter none = none := by
  have hkey : ∀ c ∈ ' ' :: (a.key.toList ++ ['=']), Mode.IsPlain c := by
    intro c hc
    simp only [List.mem_cons, List.mem_append, List.not_mem_nil, or_false] at hc
    obtain rfl | hc | rfl := hc
    · exact ⟨by decide, by decide, by decide⟩
    · exact (h.2 c hc).isPlain
    · exact ⟨by decide, by decide, by decide⟩
  have hvalue : ∀ c ∈ Entity.escape a.value.toList, Mode.IsPlain c := fun c hc =>
    ⟨fun heq => Entity.notMem_escape (by decide) _ (heq ▸ hc),
      fun heq => Entity.notMem_escape (by decide) _ (heq ▸ hc),
      fun heq => Entity.notMem_escape (by decide) _ (heq ▸ hc)⟩
  obtain ⟨hstays, hquote⟩ := stays_plain (Or.inl rfl) hkey
  obtain ⟨hstays', hquote'⟩ := stays_plain (Or.inr (Or.inl rfl)) hvalue
  have hquoted : Stays none ('"' :: (Entity.escape a.value.toList ++ ['"'])) ∧
      ('"' :: (Entity.escape a.value.toList ++ ['"'])).foldl quoteAfter none = none := by
    have hopen : quoteAfter none '"' = some '"' := rfl
    rw [Stays, List.foldl_cons, hopen, stays_append, List.foldl_append, hquote']
    exact ⟨⟨by decide, hstays', fun _ => by decide, trivial⟩, rfl⟩
  have hwritten : a.written = (' ' :: (a.key.toList ++ ['='])) ++
      '"' :: (Entity.escape a.value.toList ++ ['"']) := by
    simp [written]
  rw [hwritten, stays_append, List.foldl_append, hquote]
  exact ⟨⟨hstays, hquoted.1⟩, hquoted.2⟩

theorem stays_flatMap {as : List Attribute} (h : ∀ a ∈ as, IsPlainName a.key.toList) :
    Stays none (as.flatMap written) ∧ (as.flatMap written).foldl quoteAfter none = none := by
  induction as with
  | nil => exact ⟨trivial, rfl⟩
  | cons a as ih =>
    obtain ⟨ha, has⟩ := List.forall_mem_cons.mp h
    obtain ⟨hstays, hquote⟩ := stays_written ha
    rw [List.flatMap_cons, stays_append, List.foldl_append, hquote]
    exact ⟨⟨hstays, (ih has).1⟩, (ih has).2⟩

end Attribute

section Tags

variable {name : List Char} {as : List Attribute} (hname : IsPlainName name)
include hname

theorem IsPlainName.isTagName : IsTagName name where
  unspaced c hc := (hname.2 c hc).isSpace
  guarded hgt := absurd (hname.2 '>' hgt) (by decide)

theorem splitSpace_written (as : List Attribute) :
    (name ++ as.flatMap Attribute.written).takeWhile (!isSpace ·) = name ∧
      (name ++ as.flatMap Attribute.written).dropWhile (!isSpace ·) =
        as.flatMap Attribute.written := by
  have hpos : ∀ c ∈ name, (!isSpace c) = true := fun c hc => by simp [(hname.2 c hc).isSpace]
  rw [List.takeWhile_append_of_pos hpos, List.dropWhile_append_of_pos hpos]
  cases as with
  | nil => simp
  | cons a as => simp [Attribute.written, isSpace]

theorem head?_written (rest : List Char) (x : Char) (hx : ¬ IsNameChar x) :
    (name ++ rest).head? ≠ some x := by
  obtain ⟨c, more, rfl⟩ := List.exists_cons_of_ne_nil hname.1
  have hc : IsNameChar c := hname.2 c List.mem_cons_self
  exact fun heq => hc.ne hx (Option.some.inj heq)

theorem getLast?_written (as : List Attribute) :
    (name ++ as.flatMap Attribute.written).getLast? ≠ some '/' := by
  obtain rfl | ⟨init, a, rfl⟩ := as.eq_nil_or_concat
  · intro hlast
    rw [List.flatMap_nil, List.append_nil] at hlast
    exact absurd (hname.2 '/' (List.mem_of_getLast? hlast)) (by decide)
  · have hquote : name ++ (init ++ [a]).flatMap Attribute.written = name ++
        (init.flatMap Attribute.written ++ ' ' :: (a.key.toList ++
          '=' :: '"' :: Entity.escape a.value.toList)) ++ ['"'] := by
      simp [Attribute.written]
    rw [List.concat_eq_append, hquote, List.getLast?_concat]
    decide

theorem ofTag_opening (as : List Attribute) :
    Markup.ofTag (name ++ as.flatMap Attribute.written) =
      .opening name (as.flatMap Attribute.written) := by
  have hend : Text.stripEnd? ['/'] (name ++ as.flatMap Attribute.written) = none := by
    refine Option.eq_none_iff_forall_ne_some.mpr fun inner hinner => ?_
    refine getLast?_written hname as ?_
    rw [Text.stripEnd?_eq_some.mp hinner, List.getLast?_concat]
  rw [Markup.ofTag_of_head? (head?_written hname _ '/' (by decide)), hend]
  simp only [splitSpace_written hname as]

theorem ofTag_void (as : List Attribute) :
    Markup.ofTag (name ++ as.flatMap Attribute.written ++ ['/']) =
      .void name (as.flatMap Attribute.written) := by
  have hhead := head?_written hname (as.flatMap Attribute.written ++ ['/']) '/' (by decide)
  rw [← List.append_assoc] at hhead
  rw [Markup.ofTag_of_head? hhead, Text.stripEnd?_eq_some.mpr rfl]
  simp only [splitSpace_written hname as]

end Tags

namespace Mode

theorem scan_tag {c : Char} (hc : IsNameChar c) {body : List Char} (hstays : Stays none (c :: body))
    (hquote : (c :: body).foldl quoteAfter none = none) :
    (content false).after ('<' :: (c :: body ++ ['>'])) = .content false ∧
      (content false).emits ('<' :: (c :: body ++ ['>'])) = [.ofTag (c :: body)] := by
  have hopen : (content false).step '<' = .bracket ∧ (content false).yield '<' = [] := ⟨rfl, rfl⟩
  obtain ⟨hafter, hemits⟩ := bracket_eq_tag (hc.ne (by decide)) (hc.ne (by decide))
    (body ++ ['>'])
  obtain ⟨hafter', hemits'⟩ := scan_closed [] hstays hquote []
  rw [after_cons, emits_cons, hopen.1, hopen.2, List.cons_append, hafter, hemits,
    ← List.cons_append, hafter', hemits']
  exact ⟨rfl, rfl⟩

theorem scan_written {name : List Char} (hname : IsPlainName name) {as : List Attribute}
    (has : ∀ a ∈ as, IsPlainName a.key.toList) (slash : List Char)
    (hslash : ∀ c ∈ slash, IsPlain c) :
    (content false).after ('<' :: (name ++ as.flatMap Attribute.written ++ slash ++ ['>'])) =
        .content false ∧
      (content false).emits ('<' :: (name ++ as.flatMap Attribute.written ++ slash ++ ['>'])) =
        [.ofTag (name ++ as.flatMap Attribute.written ++ slash)] := by
  obtain ⟨hfirst, hquote⟩ := stays_plain (Or.inl rfl) fun c hc => (hname.2 c hc).isPlain
  obtain ⟨hattributes, hquote'⟩ := Attribute.stays_flatMap has
  obtain ⟨hlast, hquote''⟩ := stays_plain (Or.inl rfl) hslash
  have hstays : Stays none (name ++ as.flatMap Attribute.written ++ slash) ∧
      (name ++ as.flatMap Attribute.written ++ slash).foldl quoteAfter none = none := by
    simp only [stays_append, List.foldl_append, hquote, hquote', hquote'', and_true]
    exact ⟨⟨hfirst, hattributes⟩, hlast⟩
  obtain ⟨c, more, rfl⟩ := List.exists_cons_of_ne_nil hname.1
  exact scan_tag (hname.2 c List.mem_cons_self) hstays.1 hstays.2

theorem scan_spaces {s : List Char} (h : ∀ c ∈ s, isSpace c) :
    (content false).after s = .content false ∧ (content false).emits s = [] := by
  induction s with
  | nil => exact ⟨rfl, rfl⟩
  | cons c s ih =>
    obtain ⟨hc, hs⟩ := List.forall_mem_cons.mp h
    have hlt : c ≠ '<' := by
      rintro rfl
      cases hc
    rw [after_cons, emits_cons, step_content hlt, yield_content hlt, hc]
    exact ih hs

end Mode

inductive Piece where
  | opening (name : String) (attributes : List Attribute)
  | void (name : String) (attributes : List Attribute)
  | closing (name : String)
  | space (s : List Char)

namespace Piece

def text : Piece → List Char
  | opening name as => '<' :: (name.toList ++ as.flatMap Attribute.written ++ ['>'])
  | void name as => '<' :: (name.toList ++ as.flatMap Attribute.written ++ ['/'] ++ ['>'])
  | closing name => Repair.endTag name.toList
  | space s => s

def markup : Piece → List Markup
  | opening name as => [.opening name.toList (as.flatMap Attribute.written)]
  | void name as => [.void name.toList (as.flatMap Attribute.written)]
  | closing name => [.closing name.toList]
  | space _ => []

def Plain : Piece → Prop
  | opening name as | void name as =>
    IsPlainName name.toList ∧ ∀ a ∈ as, IsPlainName a.key.toList
  | closing name => IsPlainName name.toList
  | space s => ∀ c ∈ s, isSpace c

theorem scan_piece {p : Piece} (h : p.Plain) : (Mode.content false).after p.text = .content false ∧
    (Mode.content false).emits p.text = p.markup := by
  cases p with
  | opening name as =>
    have hscan := Mode.scan_written h.1 h.2 [] nofun
    rw [List.append_nil, ofTag_opening h.1] at hscan
    exact hscan
  | void name as =>
    have hscan := Mode.scan_written h.1 h.2 ['/'] fun c hc => by
      obtain rfl := List.mem_singleton.mp hc
      exact ⟨by decide, by decide, by decide⟩
    rw [ofTag_void h.1] at hscan
    exact hscan
  | closing name =>
    exact Repair.read_endTag h.isTagName (fun hmem => absurd (h.2 _ hmem) (by decide))
      fun hmem => absurd (h.2 _ hmem) (by decide)
  | space s => exact Mode.scan_spaces h

/-- A text that is written piece by piece is read piece by piece. -/
theorem scan_pieces {ps : List Piece} (h : ∀ p ∈ ps, p.Plain) :
    (Mode.content false).after (ps.flatMap text) = .content false ∧
      (Mode.content false).emits (ps.flatMap text) = ps.flatMap markup := by
  induction ps with
  | nil => exact ⟨rfl, rfl⟩
  | cons p ps ih =>
    obtain ⟨hp, hps⟩ := List.forall_mem_cons.mp h
    obtain ⟨hafter, hemits⟩ := scan_piece hp
    obtain ⟨hafter', hemits'⟩ := ih hps
    rw [List.flatMap_cons, Mode.after_append, Mode.emits_append, hafter, hemits, hafter', hemits']
    exact ⟨rfl, rfl⟩

end Piece

end Replay.Xml
