import Replay.Proofs.Text.Cutting
import Replay.Proofs.Xml.Escaping
import Replay.Proofs.Xml.Likeness
import Replay.Proofs.Xml.Rescale.Document
set_option autoImplicit false

/-!
Rescaling keeps the shape of a document, wherever it finds bounds. As long as no key has a double quote,
what is found in the attributes of a tag is the whole value of one of them or stands inside of a value in
single quotes (`Spelling.exists_mapped`); either way the value can still be read, and no key is touched.
-/

namespace Replay.Xml

open Rescale

namespace Rescale

variable (change : Rect → Rect)

/-- Behind the first quote of a text stands a value that is mapped, or the text may be cut there. -/
theorem map_quote_cases {front : List Char} (h : '"' ∉ front) (back : List Char) :
    (∃ value rest, IsCorners value ∧ back = value ++ '"' :: rest ∧
      mapBoundsChars change (front ++ '"' :: back) =
        front ++ '"' :: (mapValue change value ++ '"' :: mapBoundsChars change rest)) ∨
      mapBoundsChars change (front ++ '"' :: back) = front ++ '"' :: mapBoundsChars change back := by
  induction front with
  | nil => exact Or.inr (map_cons_of_ne change (by decide) back)
  | cons c front ih =>
    cases hmatch : splitBounds? (c :: (front ++ '"' :: back)) with
    | none =>
      rw [List.cons_append, map_cons_of_none change hmatch]
      obtain ⟨value, rest, hvalue, hback, hmap⟩ | hmap := ih (mt (List.mem_cons_of_mem c) h)
      · exact Or.inl ⟨value, rest, hvalue, hback, by rw [hmap, List.cons_append]⟩
      · exact Or.inr (by rw [hmap, List.cons_append])
    | some found =>
      obtain ⟨hvalue, heq⟩ := splitBounds?_eq_some.mp hmatch
      have hsplit (value : List Char) : attributeStart ++ value =
          attributeStart.dropLast ++ '"' :: value := rfl
      have hcut := heq
      rw [hsplit, ← List.cons_append] at hcut
      obtain ⟨hfront, hback⟩ := Text.append_cons_inj h (by decide) hcut
      refine Or.inl ⟨found.1, found.2, hvalue, hback, ?_⟩
      rw [List.cons_append, heq, map_bounds change hvalue, hsplit, ← hfront]

theorem resolved_map {s : List Char} (h : Entity.Resolved s) :
    Entity.Resolved (mapBoundsChars change s) := by
  induction cut s with
  | nil => trivial
  | @char c s hc _ ih =>
    rw [map_cons_of_none change hc]
    refine ⟨fun hand => ?_, ih h.2⟩
    obtain ⟨name, rest, hname, rfl⟩ := h.1 hand
    have hquote : '"' ∉ name := (Entity.isReferenceName_of_isSome hname).notMem (by decide)
    refine ⟨name, mapBoundsChars change rest, hname, ?_⟩
    rw [map_append_cons change (by decide), map_of_notMem change hquote]
  | @bounds value rest hvalue _ ih =>
    have hplain {value : List Char} (hvalue : ∀ c ∈ value, IsCornerChar c) (rest : List Char) :
        Entity.Resolved (attributeStart ++ (value ++ '"' :: rest)) ↔ Entity.Resolved rest := by
      have hsplit : attributeStart ++ (value ++ '"' :: rest) =
          attributeStart ++ value ++ ['"'] ++ rest := by simp
      rw [hsplit, Entity.resolved_append_of_notMem]
      rw [List.mem_append, List.mem_append, not_or, not_or]
      exact ⟨⟨by decide, fun hmem => absurd (hvalue _ hmem) (by decide)⟩, by decide⟩
    rw [map_bounds change hvalue, hplain (forall_mem_mapValue change hvalue)]
    exact ih ((hplain hvalue.forall_mem rest).mp h)

end Rescale

theorem Spells.ne_bounds {ws : List Spelling} {s : List Char} (h : Spells ws s)
    (hkeys : ∀ w ∈ ws, '"' ∉ w.key) {value : List Char} (hvalue : IsCorners value)
    (rest : List Char) : s ≠ value ++ '"' :: rest := by
  cases ws with
  | nil =>
    obtain ⟨trail, htrail, hs⟩ := h
    have htext : s = trail := hs
    rintro rfl
    cases htrail '"' (htext ▸ by simp)
  | cons w ws =>
    obtain ⟨more, -, rfl⟩ := Spells.cons_iff.mp h
    intro heq
    have hfront := Spelling.notMem_front (c := '"') rfl (by decide) (hkeys w List.mem_cons_self)
    have hsign : '=' ∈ w.front := by simp [Spelling.front]
    rw [w.text_append] at heq
    -- The value would hold the equals sign that stands in front of the first quote.
    obtain ⟨mid, hmid, hcut⟩ | ⟨mid, hmid, hcut⟩ := List.append_eq_append_iff.mp heq
    · exact hvalue.notMem (c := '=') (by decide) (hmid ▸ List.mem_append_left mid hsign)
    · cases mid with
      | nil =>
        rw [List.append_nil] at hmid
        exact hvalue.notMem (c := '=') (by decide) (hmid ▸ hsign)
      | cons c mid =>
        obtain ⟨rfl, -⟩ := List.cons.inj hcut
        exact hfront (hmid ▸ by simp)

variable (change : Rect → Rect)

/-- An attribute is rescaled to one of the same key, whose value can be read if that of the first can. -/
theorem Spelling.exists_mapped {w : Spelling} (hkey : '"' ∉ w.key) {rest : List Char}
    (hrest : ∀ {value more}, IsCorners value → rest ≠ value ++ '"' :: more) : ∃ w' : Spelling,
      w'.key = w.key ∧ mapBoundsChars change (w.text ++ rest) = w'.text ++ mapBoundsChars change rest ∧
        (Entity.Resolved w.raw → Entity.Resolved w'.raw) := by
  have hfront : '"' ∉ w.front := notMem_front rfl (by decide) hkey
  obtain hquote | hquote := w.quote_eq
  · have hraw : '"' ∉ w.raw := hquote ▸ w.quote_notMem
    have htext : w.text ++ rest = w.front ++ '"' :: (w.raw ++ '"' :: rest) := by
      rw [text_append, hquote]
    obtain ⟨value, more, hvalue, hback, hmap⟩ | hmap :=
      map_quote_cases change hfront (w.raw ++ '"' :: rest)
    · obtain ⟨rfl, rfl⟩ := Text.append_cons_inj hraw (hvalue.notMem (by decide)) hback
      have hno {c : Char} (hc : ¬ IsCornerChar c) : c ∉ mapValue change w.raw :=
        fun hmem => hc (forall_mem_mapValue change hvalue c hmem)
      refine ⟨w.withRaw (mapValue change w.raw) (hquote ▸ hno (by decide)), rfl, ?_,
        fun _ => Entity.resolved_of_notMem (hno (by decide))⟩
      rw [text_withRaw, htext, hmap, hquote]
    · obtain ⟨value, more, hvalue, hback, -⟩ | hcut := map_quote_cases change hraw rest
      · exact absurd hback (hrest hvalue)
      · exact ⟨w, rfl, by rw [htext, hmap, hcut, text_append, hquote], id⟩
  · have hraw : w.quote ∉ mapBoundsChars change w.raw := by
      rw [hquote]
      intro hmem
      exact (mem_map change hmem).elim (hquote ▸ w.quote_notMem) (by decide)
    refine ⟨w.withRaw (mapBoundsChars change w.raw) hraw, rfl, ?_, resolved_map change⟩
    rw [text_withRaw, text_append, hquote, map_append_cons change (by decide),
      map_append_cons change (by decide), map_of_notMem change hfront]

theorem Spells.exists_mapped {ws : List Spelling} {s : List Char} (h : Spells ws s)
    (hkeys : ∀ w ∈ ws, '"' ∉ w.key) : ∃ ws', Spells ws' (mapBoundsChars change s) ∧
      ws'.map Spelling.key = ws.map Spelling.key ∧
      ((∀ w ∈ ws, Entity.Resolved w.raw) → ∀ w ∈ ws', Entity.Resolved w.raw) := by
  induction ws generalizing s with
  | nil =>
    obtain ⟨trail, htrail, hs⟩ := h
    have htext : s = trail := hs
    subst htext
    have hsame : mapBoundsChars change s = s :=
      map_of_notMem change fun hmem => by cases htrail '"' hmem
    exact ⟨[], ⟨s, htrail, hsame⟩, rfl, fun _ => nofun⟩
  | cons w ws ih =>
    obtain ⟨rest, hrest, rfl⟩ := Spells.cons_iff.mp h
    obtain ⟨hkey, hkeys⟩ := List.forall_mem_cons.mp hkeys
    obtain ⟨ws', hspells, hsame, hresolved⟩ := ih hrest hkeys
    obtain ⟨w', hkey', htext, hraw⟩ :=
      w.exists_mapped change hkey fun hvalue => hrest.ne_bounds hkeys hvalue _
    refine ⟨w' :: ws', Spells.cons_iff.mpr ⟨_, hspells, htext⟩, by simp [hkey', hsame], ?_⟩
    intro hall
    obtain ⟨hfirst, hothers⟩ := List.forall_mem_cons.mp hall
    exact List.forall_mem_cons.mpr ⟨hraw hfirst, hresolved hothers⟩

theorem Attribute.read?_mapBounds_keys {s : List Char} {as : List Attribute} (h : read? s = some as)
    (hkeys : ∀ a ∈ as, '"' ∉ a.key.toList) : ∃ as', read? (mapBoundsChars change s) = some as' ∧
      SameKeys id as as' := by
  obtain ⟨ws, hspells⟩ := Spells.exists_of_read h
  obtain ⟨hnodup, hattributes⟩ := hspells.read?_eq_some.mp h
  obtain ⟨ws', hspells', hsame, hresolved⟩ :=
    hspells.exists_mapped change (Spells.notMem_key hattributes hkeys)
  obtain ⟨as', has', hkeys'⟩ := hspells'.exists_attributes (hsame ▸ hnodup)
    (hresolved (Spells.resolved hattributes))
  exact ⟨as', has', hkeys'.trans (hsame.trans (Spells.keys_eq hattributes).symm)⟩

theorem Markup.rescaled_alike {d : Document} (hnames : d.NamesAvoid ['"']) {m : Markup}
    (hholds : Builder.Holds d m) : m.Alike id (SameKeys id) (m.rescaled change) := by
  have hname {number : Nat} (hlt : number < d.size) {name : List Char}
      (heq : d.name number = String.ofList name) : mapBoundsChars change name = name := by
    have havoid := (hnames number hlt).1 '"' (by simp)
    rw [heq, String.toList_ofList] at havoid
    exact map_of_notMem change havoid
  have hread {number : Nat} (hlt : number < d.size) {attributes : List Char}
      (heq : Attribute.read? attributes = some (d.element number).attributes) :
      ReadsAlike (SameKeys id) attributes (mapBoundsChars change attributes) := by
    intro as has
    rw [heq] at has
    obtain rfl := Option.some.inj has
    exact Attribute.read?_mapBounds_keys change heq fun a ha =>
      (hnames number hlt).2 a ha '"' (by simp)
  cases m with
  | opening name attributes =>
    obtain ⟨number, hlt, heq, hattributes⟩ := hholds
    rw [Markup.rescaled, hname hlt heq]
    exact .opening (hread hlt hattributes)
  | void name attributes =>
    obtain ⟨number, hlt, heq, hattributes⟩ := hholds
    rw [Markup.rescaled, hname hlt heq]
    exact .void (hread hlt hattributes)
  | closing name =>
    obtain ⟨number, hlt, heq⟩ := hholds
    rw [Markup.rescaled, hname hlt heq]
    exact .closing
  | characters => exact .characters

namespace Document

/-- Rescaling breaks no document whose names and keys have no double quote, wherever it finds bounds:
what results are the same elements with attributes of the same keys. -/
theorem parse?_mapBounds_alike {content : String} {d : Document} (h : parse? content = some d)
    (hnames : d.NamesAvoid ['"']) :
    ∃ d', parse? (Rescale.mapBounds change content) = some d' ∧ d.Alike id (SameKeys id) d' := by
  obtain ⟨hrest, b, hrun, -, -, rfl⟩ := parse?_iff.mp h
  obtain ⟨hemits, hafter⟩ := Mode.scan_content_map change false (fromMarkup content.toList)
  refine parse?_alike rfl rfl h ?_ ?_
  · rw [Rescale.mapBounds, String.toList_ofList, fromMarkup_map]
    exact hafter.mpr hrest
  · rw [Rescale.mapBounds, String.toList_ofList, fromMarkup_map, hemits, List.forall₂_map_right_iff,
      List.forall₂_same]
    exact fun m hm => Markup.rescaled_alike change hnames
      (Builder.holds_run Builder.sound_empty hrun m hm)

theorem parse?_mapBounds_alike_strayBounds :
    let content := "<a xbounds=\"[1,2][3,4]\" b='bounds=\"[0,0][9,9]\"'>bounds=\"[5,5][6,6]\"" ++
      "<b/><!-- bounds=\"[1,1][2,2]\" --></a>"
    let d : Document := ⟨#[
      { name := "a", parent := none, children := #[1], depth := 0, hasText := true
        attributes := [⟨"xbounds", "[1,2][3,4]"⟩, ⟨"b", "bounds=\"[0,0][9,9]\""⟩] },
      { name := "b", attributes := [], parent := some 0, depth := 1 }]⟩
    parse? content = some d ∧ d.NamesAvoid ['"'] ∧
      ∃ d', parse? (Rescale.mapBounds (Rect.scaled 2 0.5) content) = some d' ∧
        d.Alike id (SameKeys id) d' := by
  intro content d
  have hparse : parse? content = some d := by decide +kernel +zetaReduce
  have hnames : d.NamesAvoid ['"'] := by decide +kernel +zetaReduce
  exact ⟨hparse, hnames, parse?_mapBounds_alike (Rect.scaled 2 0.5) hparse hnames⟩

end Document

end Replay.Xml
