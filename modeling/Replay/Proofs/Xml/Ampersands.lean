import Replay.Proofs.Text.Cutting
import Replay.Proofs.Xml.Idempotence
import Replay.Proofs.Xml.Likeness
import Replay.Proofs.Xml.Values
set_option autoImplicit false

/-!
Repair of ampersands. Those that begin no reference are escaped, in keys as in values, and those that
begin one are kept, whatever they refer to. So if a text is a document up to the ampersands in its values,
repair makes it one exactly if no two keys of a tag become the same and every reference in a value stands
for a character (`Document.parse?_repair_ampersands`).
-/

namespace Replay.Xml

namespace Repair

def Resolvable (s : List Char) : Prop :=
  ∀ before name rest, s = before ++ '&' :: (name ++ ';' :: rest) → IsReferenceName name →
    (Entity.resolve? name).isSome

theorem resolvable_cons {c : Char} {s : List Char} : Resolvable (c :: s) ↔
    (∀ name rest, c = '&' → s = name ++ ';' :: rest → IsReferenceName name →
      (Entity.resolve? name).isSome) ∧ Resolvable s := by
  constructor
  · intro h
    refine ⟨fun name rest hc hs => h [] name rest (by rw [hc, hs]; rfl), ?_⟩
    exact fun before name rest hs => h (c :: before) name rest (by rw [hs]; rfl)
  · rintro ⟨hfirst, hrest⟩ before name rest heq
    cases before with
    | nil => exact hfirst name rest (List.cons.inj heq).1 (List.cons.inj heq).2
    | cons x before => exact hrest before name rest (List.cons.inj heq).2

theorem resolved_escapeAmpersands (s : List Char) :
    Entity.Resolved (escapeAmpersands s) ↔ Resolvable s := by
  induction s with
  | nil => exact iff_of_true trivial (by simp [Resolvable])
  | cons c s ih =>
    rw [resolvable_cons, ← ih]
    by_cases hc : c = '&'
    · subst hc
      by_cases hreference : isReference s
      · rw [escapeAmpersands_reference hreference]
        obtain ⟨name, rest, hname, rfl⟩ := isReference_iff.mp hreference
        have hrest : escapeAmpersands (name ++ ';' :: rest) = name ++ ';' :: escapeAmpersands rest := by
          rw [escapeAmpersands_append_of_notMem hname.no_ampersand,
            escapeAmpersands_cons_of_ne (by decide)]
        have hsome : (Entity.resolve? name).isSome ↔ ∀ name' rest', '&' = '&' →
            name ++ ';' :: rest = name' ++ ';' :: rest' → IsReferenceName name' →
              (Entity.resolve? name').isSome := by
          refine ⟨fun h name' rest' _ heq hname' => ?_, fun h => h name rest rfl rfl hname⟩
          obtain ⟨rfl, -⟩ := Text.append_cons_inj hname.no_semicolon hname'.no_semicolon heq
          exact h
        rw [← hsome, hrest]
        refine ⟨fun h => ⟨((Entity.resolved_reference hname).mp h).1, h.2⟩, fun h => ?_⟩
        exact ⟨fun _ => ⟨name, _, h.1, rfl⟩, h.2⟩
      · have hamp : (Entity.resolve? ['a', 'm', 'p']).isSome := rfl
        rw [escapeAmpersands_bare hreference,
          Entity.resolved_reference (Entity.isReferenceName_of_isSome hamp), and_iff_right hamp]
        refine (and_iff_right fun name rest _ heq hname => ?_).symm
        exact absurd (isReference_iff.mpr ⟨name, rest, hname, heq⟩) hreference
    · rw [escapeAmpersands_cons_of_ne hc, Entity.Resolved]
      exact and_congr_left fun _ => iff_of_true (fun h => absurd h hc) fun _ _ h => absurd h hc

theorem track_rewritten {T : List Char → List Char} {names next : List (List Char)} {m : Markup}
    (h : track names m = some next) : track (names.map T) (m.rewritten T) = some (next.map T) := by
  cases m with
  | opening name attributes =>
    obtain rfl := Option.some.inj h
    rfl
  | closing name =>
    cases names with
    | nil => cases h
    | cons inner outer =>
      obtain ⟨rfl, hnext⟩ := (Option.ite_none_right_eq_some ..).mp h
      obtain rfl := Option.some.inj hnext
      exact if_pos rfl
  | void | characters =>
    obtain rfl := Option.some.inj h
    rfl

theorem track_map_rewritten {T : List Char → List Char} {names left : List (List Char)}
    {markup : List Markup} (h : markup.foldlM track names = some left) :
    (markup.map (Markup.rewritten T)).foldlM track (names.map T) = some (left.map T) := by
  induction markup generalizing names with
  | nil =>
    obtain rfl := Option.some.inj h
    rfl
  | cons m rest ih =>
    rw [List.foldlM_cons] at h
    obtain ⟨next, hm, hrest⟩ := Option.bind_eq_some_iff.mp h
    rw [List.map_cons, List.foldlM_cons, track_rewritten hm]
    exact ih hrest

end Repair

open Repair

theorem Spelling.escape_front (w : Spelling) : escapeAmpersands w.front =
    w.lead ++ (escapeAmpersands w.key ++ (w.before ++ '=' :: w.behind)) := by
  have hspaces {s : List Char} (h : ∀ c ∈ s, isSpace c) : '&' ∉ s :=
    Attribute.ampersand_notMem_of_isSpace h
  have hsign : '&' ∉ w.before ++ '=' :: w.behind := by
    simp [hspaces w.isSpace_before, hspaces w.isSpace_behind]
  have hcut : ∃ c back, w.before ++ '=' :: w.behind = c :: back ∧ ¬ IsReferenceChar c := by
    cases hbefore : w.before with
    | nil => exact ⟨'=', w.behind, rfl, by decide⟩
    | cons c before =>
      have hc : isSpace c := w.isSpace_before c (hbefore ▸ List.mem_cons_self)
      exact ⟨c, before ++ '=' :: w.behind, rfl, (not_isReferenceChar_of_isStop (Or.inl hc)).1⟩
  obtain ⟨c, back, heq, hc⟩ := hcut
  rw [heq] at hsign
  obtain ⟨hne, hback⟩ := not_or.mp (mt List.mem_cons.mpr hsign)
  rw [Spelling.front, escapeAmpersands_append_of_notMem (hspaces w.isSpace_lead), heq,
    escapeAmpersands_append_cons (Ne.symm hne) hc,
    escapeAmpersands_of_referenced (referenced_of_notMem hback)]

theorem Spelling.exists_escaped (w : Spelling) (rest : List Char) : ∃ w' : Spelling,
    w'.key = escapeAmpersands w.key ∧ w'.raw = escapeAmpersands w.raw ∧
      escapeAmpersands (w.text ++ rest) = w'.text ++ escapeAmpersands rest := by
  have hquote : w.quote ≠ '&' ∧ ¬ IsReferenceChar w.quote ∧ w.quote ∉ "&amp;".toList := by
    obtain h | h := w.quote_eq <;> rw [h] <;> decide
  obtain ⟨hand, hcut, hword⟩ := hquote
  obtain ⟨more, hkey, hmem⟩ := (escapes_escapeAmpersands w.key).exists_cons
  have hmore : ∀ c ∈ more, (c != '=' && !isSpace c) = true := by
    have hplain : ∀ x ∈ "&amp;".toList, (x != '=' && !isSpace x) = true :=
      List.all_eq_true.mp (by decide)
    exact fun c hc => (hmem c hc).elim (w.continues_more c) (hplain c)
  have hraw : w.quote ∉ escapeAmpersands w.raw := fun hmem =>
    ((escapes_escapeAmpersands w.raw).mem hmem).elim w.quote_notMem hword
  let w' : Spelling :=
    { w with more, continues_more := hmore, raw := escapeAmpersands w.raw, quote_notMem := hraw }
  refine ⟨w', hkey.symm, rfl, ?_⟩
  have hfront : escapeAmpersands w.front = w'.front := by
    rw [w.escape_front, hkey]
    rfl
  rw [w.text_append, w'.text_append, escapeAmpersands_append_cons hand hcut,
    escapeAmpersands_append_cons hand hcut, hfront]

theorem Spells.exists_escaped {ws : List Spelling} {s : List Char} (h : Spells ws s) :
    ∃ ws', Spells ws' (escapeAmpersands s) ∧
      ws'.map Spelling.key = (ws.map Spelling.key).map escapeAmpersands ∧
      ws'.map Spelling.raw = (ws.map Spelling.raw).map escapeAmpersands := by
  induction ws generalizing s with
  | nil =>
    obtain ⟨trail, htrail, hs⟩ := h
    have htext : s = trail := hs
    subst htext
    exact ⟨[], ⟨_, htrail, piecewise_escapeAmpersands.spaces htrail⟩, rfl, rfl⟩
  | cons w ws ih =>
    obtain ⟨rest, hrest, rfl⟩ := Spells.cons_iff.mp h
    obtain ⟨ws', hspells, hkeys, hraws⟩ := ih hrest
    obtain ⟨w', hkey, hraw, htext⟩ := w.exists_escaped rest
    refine ⟨w' :: ws', Spells.cons_iff.mpr ⟨_, hspells, htext⟩, ?_, ?_⟩
    · simp [hkey, hkeys]
    · simp [hraw, hraws]

namespace Markup

/-- The keys of a tag stay distinct when they are escaped, and the references in its values stand for
characters. -/
structure Escapable (m : Markup) : Prop where
  distinct : ((m.pairs.map Prod.fst).map escapeAmpersands).Nodup
  resolvable : ∀ pair ∈ m.pairs, Resolvable pair.2

variable {m : Markup}

theorem readsAlike_escaped {name attributes : List Char} (hstart : m.start? = some (name, attributes))
    (h : m.Escapable) : ReadsAlike (SameKeys escapeAmpersands) (Place.lead.escape attributes)
      (escapeAmpersands attributes) := by
  obtain ⟨hkeys, hvalues⟩ := h
  intro as has
  obtain ⟨ws, hspells⟩ := Spells.exists_of_read has
  obtain ⟨ws', hspells', hsame⟩ := hspells.exists_unescaped
  obtain ⟨ws'', hspells'', hkeys'', hraws''⟩ := hspells'.exists_escaped
  rw [pairs_eq hstart hspells'] at hkeys hvalues
  have hnodup : (ws''.map Spelling.key).Nodup := by
    rw [hkeys'']
    simpa [Function.comp_def] using hkeys
  have hresolved : ∀ w ∈ ws'', Entity.Resolved w.raw := by
    intro w hw
    have hmem : w.raw ∈ (ws'.map Spelling.raw).map escapeAmpersands := hraws'' ▸ List.mem_map_of_mem hw
    obtain ⟨raw, hraw, heq⟩ := List.mem_map.mp hmem
    obtain ⟨w', hw', rfl⟩ := List.mem_map.mp hraw
    rw [← heq, resolved_escapeAmpersands]
    exact hvalues (w'.key, w'.raw) (List.mem_map_of_mem hw')
  obtain ⟨as', has', hkeys'⟩ := hspells''.exists_attributes hnodup hresolved
  refine ⟨as', has', ?_⟩
  have hold := Spells.keys_eq (hspells.read?_eq_some.mp has).2
  rw [SameKeys, hkeys', hkeys'', hsame, ← hold, List.map_map]
  rfl

theorem alike_escaped (h : m.Escapable) : m.valuesEscaped.Alike escapeAmpersands
    (SameKeys escapeAmpersands) (m.rewritten escapeAmpersands) := by
  cases m with
  | opening name attributes =>
    have hstart : (Markup.opening name attributes).start? = some (name, attributes) := rfl
    exact .opening (readsAlike_escaped hstart h)
  | void name attributes =>
    have hstart : (Markup.void name attributes).start? = some (name, attributes) := rfl
    exact .void (readsAlike_escaped hstart h)
  | closing name => exact .closing
  | characters => exact .characters

theorem escapable_of_holds {d : Document} (h : Builder.Holds d (m.rewritten escapeAmpersands)) :
    m.Escapable := by
  have hnone (hpairs : m.pairs = []) : m.Escapable := by
    refine ⟨?_, ?_⟩ <;> simp [hpairs]
  cases hstart : m.start? with
  | none => exact hnone (by simp [pairs, hstart])
  | some tag =>
    obtain ⟨name, attributes⟩ := tag
    cases hsplit : Attribute.split? attributes with
    | none => exact hnone (by simp [pairs, hstart, hsplit])
    | some pairs =>
      obtain ⟨ws, hspells, -⟩ := Attribute.split?_eq_some.mp hsplit
      obtain ⟨ws', hspells', hkeys, hraws⟩ := hspells.exists_escaped
      have hread : ∃ as, Attribute.read? (escapeAmpersands attributes) = some as := by
        cases m with
        | opening | void =>
          obtain ⟨rfl, rfl⟩ := Prod.mk.inj (Option.some.inj hstart)
          obtain ⟨id, -, -, hread⟩ := h
          exact ⟨_, hread⟩
        | closing | characters => cases hstart
      obtain ⟨as, has⟩ := hread
      obtain ⟨hnodup, hattributes⟩ := hspells'.read?_eq_some.mp has
      have hpairs := pairs_eq hstart hspells
      refine ⟨?_, fun pair hpair => ?_⟩
      · rw [hkeys] at hnodup
        simpa [hpairs, Function.comp_def] using hnodup
      · rw [hpairs] at hpair
        obtain ⟨w, hw, rfl⟩ := List.mem_map.mp hpair
        have hmem : escapeAmpersands w.raw ∈ ws'.map Spelling.raw := by
          rw [hraws]
          exact List.mem_map_of_mem (List.mem_map_of_mem hw)
        obtain ⟨w', hw', heq⟩ := List.mem_map.mp hmem
        have hresolved := Spells.resolved hattributes w' hw'
        exact (resolved_escapeAmpersands _).mp (heq ▸ hresolved)

end Markup

theorem mem_scan_cases {text : List Char} {m : Markup}
    (h : m ∈ (scan text).markup.map Placed.markup) :
    m = .characters ∨ m ∈ (Mode.content false).emits (fromMarkup text) := by
  obtain ⟨lead, hlead, hscan⟩ := exists_scan text
  rw [hscan] at h
  obtain h | h := List.mem_append.mp h
  · obtain rfl | rfl := hlead
    · cases h
    · exact Or.inl (List.mem_singleton.mp h)
  · exact Or.inr h

namespace Document

/-- A text whose elements are all closed is repaired to what is built from its tags once these are
escaped. -/
theorem parse?_repair_iff {content : String} {d : Document}
    (hrest : ((Mode.content false).after (fromMarkup content.toList)).IsContent)
    (hroot : 0 < startTags content.toList)
    (htrack : ((Mode.content false).emits (fromMarkup content.toList)).foldlM track [] = some []) :
    parse? (repair content).content = some d ↔
      ∃ b, (((Mode.content false).emits (fromMarkup content.toList)).map
          (Markup.rewritten escapeAmpersands)).foldlM Builder.take {} = some b ∧
        b.unclosed = [] ∧ b.elements.size ≠ 0 ∧ d = b.document := by
  obtain ⟨lead, init, tail, htext, hlead, htail⟩ := exists_captured hroot
  rw [htext, fromMarkup_append hlead] at hrest htrack
  obtain ⟨hcore, hemits⟩ := Mode.read_captured htail hrest
  obtain ⟨hescaped, hescaped'⟩ := readAlike_escapeAmpersands
    (Mode.reading_content false ('<' :: (init ++ ['>']))) (by trivial)
  rw [escapeAmpersands_cons_of_ne (by decide)] at hescaped hescaped'
  have hclosed : closeElements ('<' :: escapeAmpersands (init ++ ['>'])) =
      '<' :: escapeAmpersands (init ++ ['>']) := by
    refine closeElements_of_nothing fun names hnames => ?_
    have hsame := (unclosedNames?_eq_some.mp hnames).2
    rw [fromMarkup_cons, hescaped, ← hemits] at hsame
    have hall := track_map_rewritten (T := escapeAmpersands) htrack
    exact Option.some.inj (hsame.symm.trans hall)
  obtain ⟨hdeclared, hdeclared'⟩ := fromMarkup_declare (escapeAmpersands (init ++ ['>']))
  rw [content_repair, htext, trimNoise_eq hlead htail, escapeAmpersands_cons_of_ne (by decide), hclosed,
    parse?_iff, String.toList_ofList, hdeclared, hdeclared', hescaped, ← hemits,
    fromMarkup_append hlead]
  exact and_iff_right (hescaped'.mpr hcore)

/-- Repair makes a document of a text that is one up to the ampersands in its values exactly if the keys
of each tag stay distinct when they are escaped, and every text in a value that has the form of a
reference stands for a character. -/
theorem parse?_repair_ampersands {content : String} (h : (parse? (escapeValues content)).isSome) :
    (parse? (repair content).content).isSome ↔
      ∀ m ∈ (scan content.toList).markup.map Placed.markup, m.Escapable := by
  obtain ⟨d, hd⟩ := Option.isSome_iff_exists.mp h
  obtain ⟨hrest, b, hrun, hopen, hsize, -⟩ := parse?_iff.mp hd
  obtain ⟨hemits, hafter⟩ := readAlike_escapeTags
    (Mode.reading_content false (fromMarkup content.toList)) nofun
  rw [escapeValues, String.toList_ofList, fromMarkup_escapeTags] at hrest hrun
  rw [hafter] at hrest
  rw [hemits] at hrun
  have hroot : 0 < startTags content.toList := by
    have hcount := (Builder.within_run hrun).2
    have hsame := funext Markup.isStart_valuesEscaped
    rw [List.countP_map, Function.comp_def, hsame, ← startTags_eq] at hcount
    exact Nat.pos_of_ne_zero fun hzero => hsize (hcount.trans (by rw [hzero]; rfl))
  have htrack : ((Mode.content false).emits (fromMarkup content.toList)).foldlM track [] = some [] := by
    have hnames := Builder.track_run Builder.sound_empty hrun
    have hsame := funext₂ track_valuesEscaped
    rw [List.foldlM_map, hsame, Builder.openNames, Builder.openNames, hopen] at hnames
    exact hnames
  have hrepair {d : Document} := parse?_repair_iff (d := d) hrest hroot htrack
  constructor
  · intro hrepaired m hm
    obtain ⟨d', hd'⟩ := Option.isSome_iff_exists.mp hrepaired
    obtain ⟨b', hrun', -⟩ := hrepair.mp hd'
    obtain rfl | hm := mem_scan_cases hm
    · exact ⟨List.nodup_nil, fun pair hpair => absurd hpair List.not_mem_nil⟩
    · exact Markup.escapable_of_holds
        (Builder.holds_run Builder.sound_empty hrun' _ (List.mem_map_of_mem hm))
  · intro hescapable
    have halike : List.Forall₂ (Markup.Alike escapeAmpersands (SameKeys escapeAmpersands))
        (((Mode.content false).emits (fromMarkup content.toList)).map Markup.valuesEscaped)
        (((Mode.content false).emits (fromMarkup content.toList)).map
          (Markup.rewritten escapeAmpersands)) := by
      rw [List.forall₂_map_left_iff, List.forall₂_map_right_iff, List.forall₂_same]
      exact fun m hm => Markup.alike_escaped (hescapable m (mem_scan_of_emits hm))
    obtain ⟨b', hrun', hb⟩ := Builder.run_alike halike (Builder.alike_empty rfl rfl) hrun
    have hsize' : b'.elements.size = b.elements.size := hb.document.size_eq
    have hd' := hrepair.mpr ⟨b', hrun', hb.unclosed_eq.trans hopen, hsize' ▸ hsize, rfl⟩
    rw [hd']
    rfl

theorem parse?_repair_ampersands_mixed :
    let content := "$ <a&b k&=\"1 & 2\" t='&lt;&#x41;&;&a b'>R&D</a&b>"
    (parse? (escapeValues content)).isSome ∧ (parse? (repair content).content).isSome ∧
      ∀ m ∈ (scan content.toList).markup.map Placed.markup, m.Escapable := by
  intro content
  have hvalues : (parse? (escapeValues content)).isSome := by decide +kernel +zetaReduce
  have hrepaired : (parse? (repair content).content).isSome := by decide +kernel +zetaReduce
  exact ⟨hvalues, hrepaired, (parse?_repair_ampersands hvalues).mp hrepaired⟩

/-- A name that no character has is kept as well, and makes the text no document. -/
theorem parse?_repair_unknownReference :
    let content := "<a t=\"&nbsp;\"/>"
    (parse? (escapeValues content)).isSome ∧ parse? (repair content).content = none := by
  decide +kernel +zetaReduce

end Document

end Replay.Xml
