import Replay.Proofs.Xml.Mending
import Replay.Proofs.Xml.Preorder
import Replay.Proofs.Xml.Rewriting
set_option autoImplicit false

/-!
What is left open by a text once repair has put end tags behind it. The name of an element may hold
quotes; then its end tag is not closed where it should be, but swallows what follows, and matches no
open element any more (`Repair.nothing_of_endTags`). So whatever a text is, repair leaves nothing open
that end tags could close (`Repair.nothing_unclosed_repair`). If the names have no quotes the end tags
are read as intended, and a text that only lacks them is mended (`Document.repair_closes`).
-/

namespace Replay.Xml

def Markup.pairs (m : Markup) : List (List Char × List Char) :=
  (m.start? >>= fun tag => Attribute.split? tag.2).getD []

theorem Markup.pairs_eq {m : Markup} {name attributes : List Char} {ws : List Spelling}
    (hstart : m.start? = some (name, attributes)) (hspells : Spells ws attributes) :
    m.pairs = ws.map fun w => (w.key, w.raw) := by
  rw [pairs, hstart, Option.bind_eq_bind, Option.bind_some,
    Attribute.split?_eq_some.mpr ⟨ws, hspells, rfl⟩, Option.getD_some]

/-- None of the characters is in the name of a tag or in a key of its attributes. -/
def Markup.Avoids (marks : List Char) (m : Markup) : Prop :=
  ∀ c ∈ marks, (∀ tag ∈ m.start?, c ∉ tag.1) ∧ ∀ pair ∈ m.pairs, c ∉ pair.1

instance (marks : List Char) (m : Markup) : Decidable (m.Avoids marks) :=
  List.decidableBAll _ marks

structure IsOpenName (name : List Char) : Prop where
  unspaced : ∀ c ∈ name, isSpace c = false
  stays : Stays none name

namespace Mode

/-- Each tag that is read is the text between its brackets. -/
theorem Reading.closed {m : Mode} {s : List Char} (h : m.Reading s) : ∀ mk ∈ m.emits s,
    mk = .characters ∨
      ∃ body, Stays none body ∧ body.foldl quoteAfter none = none ∧ mk = .ofTag body := by
  induction h with
  | nil => nofun
  | @outside m htag c s _ ih =>
    intro mk hmk
    rw [emits_cons] at hmk
    obtain hmk | hmk := List.mem_append.mp hmk
    · exact Or.inl ((outside_step htag c).2 mk hmk)
    · exact ih mk hmk
  | @mark c hc s _ ih =>
    have hyield : bracket.yield c = [] := by
      obtain rfl | rfl := hc <;> rfl
    rwa [emits_cons, hyield]
  | @unclosed s hhead hstays =>
    rw [(bracket_of_head? hhead).1, (scan_stays [] hstays).2]
    nofun
  | @tag inner rest hhead hstays hclosed _ ih =>
    have hhead' := unmarked_tag hhead rest
    rw [(bracket_of_head? hhead').1, (scan_closed [] hstays hclosed rest).2]
    intro mk hmk
    obtain rfl | hmk := List.mem_cons.mp hmk
    · exact Or.inr ⟨inner, hstays, hclosed, rfl⟩
    · exact ih mk hmk

theorem reading_content (seen : Bool) (s : List Char) : (content seen).Reading s :=
  reading (Or.inr (by simp [InTag])) s

theorem isOpenName_of_emits {seen : Bool} {s name attributes : List Char}
    (h : .opening name attributes ∈ (content seen).emits s) : IsOpenName name := by
  obtain h | ⟨body, hstays, -, htag⟩ := (reading_content seen s).closed _ h
  · cases h
  obtain ⟨rest, -, hof⟩ | ⟨name', attributes', slash, rfl, hunspaced, -, hof⟩ :=
    Markup.ofTag_cases body
  · rw [hof] at htag
    cases htag
  · obtain hof | hof := hof
    · rw [hof] at htag
      cases htag
      exact ⟨hunspaced, (stays_append.mp hstays).1⟩
    · rw [hof] at htag
      cases htag

end Mode

namespace Repair

theorem track_opened {markup : List Markup} {names left : List (List Char)}
    (h : markup.foldlM track names = some left) : ∀ name ∈ left,
      name ∈ names ∨ ∃ attributes, .opening name attributes ∈ markup := by
  induction markup generalizing names with
  | nil =>
    obtain rfl := Option.some.inj h
    exact fun name hname => Or.inl hname
  | cons m rest ih =>
    rw [List.foldlM_cons] at h
    obtain ⟨next, hm, hrest⟩ := Option.bind_eq_some_iff.mp h
    intro name hname
    obtain hnext | ⟨attributes, hmem⟩ := ih hrest name hname
    · cases m with
      | opening opened attributes =>
        obtain rfl := Option.some.inj hm
        obtain rfl | hold := List.mem_cons.mp hnext
        · exact Or.inr ⟨attributes, List.mem_cons_self⟩
        · exact Or.inl hold
      | closing closed =>
        simp only [track] at hm
        split at hm
        · split at hm
          · obtain rfl := Option.some.inj hm
            exact Or.inl (List.mem_cons_of_mem _ hnext)
          · cases hm
        · cases hm
      | void | characters =>
        obtain rfl := Option.some.inj hm
        exact Or.inl hnext
    · exact Or.inr ⟨attributes, List.mem_cons_of_mem m hmem⟩

/-- A tag that goes on past its bracket, because a quote is open there. -/
theorem exists_swallowed {name rest inner more : List Char} (hname : Stays none name)
    (hopen : name.foldl quoteAfter none ≠ none) (hinner : Stays none inner)
    (hclosed : inner.foldl quoteAfter none = none)
    (h : name ++ '>' :: rest = inner ++ '>' :: more) : ∃ swallowed, inner = name ++ '>' :: swallowed ∧
      swallowed ⊆ rest := by
  obtain ⟨mid, rfl, hmid⟩ | ⟨mid, rfl, hmid⟩ := List.append_eq_append_iff.mp h
  · cases mid with
    | nil =>
      rw [List.append_nil] at hclosed
      exact absurd hclosed hopen
    | cons x mid =>
      obtain ⟨rfl, rfl⟩ := List.cons.inj hmid
      exact ⟨mid, rfl, fun c hc => List.mem_append_left _ hc⟩
  · cases mid with
    | nil =>
      rw [List.append_nil] at hopen
      exact absurd hclosed hopen
    | cons x mid =>
      obtain ⟨rfl, -⟩ := List.cons.inj hmid
      exact absurd rfl ((stays_append.mp hname).2.1 hclosed)

theorem unspaced_endTags {names : List (List Char)} (h : ∀ name ∈ names, IsOpenName name) :
    ∀ c ∈ names.flatMap endTag, isSpace c = false := by
  intro c hc
  obtain ⟨name, hname, hc⟩ := List.mem_flatMap.mp hc
  simp only [endTag, List.mem_cons, List.mem_append, List.not_mem_nil, or_false] at hc
  obtain rfl | rfl | hc | rfl := hc
  · rfl
  · rfl
  · exact (h name hname).unspaced c hc
  · rfl

/-- The end tags of open elements close these, or they are read as something that closes nothing. -/
theorem nothing_of_endTags {names left : List (List Char)} (hnames : ∀ name ∈ names, IsOpenName name)
    {seen : Bool} (hrest : ((Mode.content seen).after (names.flatMap endTag)).IsContent)
    (htrack : ((Mode.content seen).emits (names.flatMap endTag)).foldlM track names = some left) :
    left = [] := by
  induction names generalizing seen with
  | nil => exact (Option.some.inj htrack).symm
  | cons name names ih =>
    obtain ⟨⟨hunspaced, hstays⟩, hothers⟩ := List.forall_mem_cons.mp hnames
    have htext : (name :: names).flatMap endTag =
        '<' :: ('/' :: name ++ '>' :: names.flatMap endTag) := by simp [endTag]
    have hhead : ∀ c ∈ ('/' :: name ++ '>' :: names.flatMap endTag).head?, c ≠ '!' ∧ c ≠ '?' := by
      simp
    obtain ⟨hemits, hafter⟩ := Mode.bracket_of_head? hhead
    have hstep : (Mode.content seen).step '<' = .bracket := rfl
    have hyield : ((Mode.content seen).yield '<').foldlM track (name :: names) =
        some (name :: names) := by cases seen <;> rfl
    rw [htext, Mode.after_cons, hstep, hafter] at hrest
    rw [htext, Mode.emits_cons, List.foldlM_append, hyield, hstep, hemits] at htrack
    have hslash : Stays none ('/' :: name) := ⟨by simp, hstays⟩
    by_cases hclosed : ('/' :: name).foldl quoteAfter none = none
    · obtain ⟨hafter, hemits⟩ := Mode.scan_closed [] hslash hclosed (names.flatMap endTag)
      have htag : Markup.ofTag ('/' :: name) = .closing name :=
        congrArg Markup.closing (closingName_eq hunspaced)
      rw [hafter] at hrest
      rw [hemits, List.reverse_nil, List.nil_append, htag] at htrack
      have hpop : track (name :: names) (.closing name) = some names := if_pos rfl
      rw [Option.bind_eq_bind, Option.bind_some, List.foldlM_cons, hpop] at htrack
      exact ih hothers hrest htrack
    · obtain hopen | ⟨inner, more, hinner, hclosed', hsplit⟩ :=
        stays_cases none ('/' :: name ++ '>' :: names.flatMap endTag)
      · rw [(Mode.scan_stays [] hopen).1] at hrest
        exact absurd hrest (Mode.not_isContent_tag _ _)
      -- The end tag is longer than the name, so that it closes no element of that name.
      obtain ⟨swallowed, rfl, hsub⟩ := exists_swallowed hslash hclosed hinner hclosed' hsplit
      have hspace : ∀ c ∈ name ++ '>' :: swallowed, isSpace c = false := by
        have hends := unspaced_endTags hothers
        exact List.forall_mem_append.mpr ⟨hunspaced, List.forall_mem_cons.mpr
          ⟨rfl, fun c hc => hends c (hsub hc)⟩⟩
      have htag : Markup.ofTag ('/' :: (name ++ '>' :: swallowed)) =
          .closing (name ++ '>' :: swallowed) := congrArg Markup.closing (closingName_eq hspace)
      have hpop : track (name :: names) (.closing (name ++ '>' :: swallowed)) = none :=
        if_neg (by simp)
      rw [hsplit, (Mode.scan_closed [] hinner hclosed' more).2, List.reverse_nil, List.nil_append,
        List.cons_append, htag, Option.bind_eq_bind, Option.bind_some, List.foldlM_cons,
        hpop] at htrack
      cases htrack

theorem read_endTags_behind (seen : Bool) {names : List (List Char)}
    (h : ∀ name ∈ names, IsTagName name ∧ '"' ∉ name ∧ '\'' ∉ name) :
    ∃ more, (more = [] ∨ more = [.characters]) ∧
      (Mode.content seen).emits (names.flatMap endTag) = more ++ names.map .closing ∧
      ((Mode.content seen).after (names.flatMap endTag)).IsContent := by
  obtain ⟨hafter, hemits⟩ := read_endTags h
  obtain ⟨more, hmore, hread, hend⟩ := Mode.emits_fromMarkup seen (names.flatMap endTag)
  have hfrom : fromMarkup (names.flatMap endTag) = names.flatMap endTag := by
    cases names <;> rfl
  rw [hfrom, hemits] at hread
  rw [hfrom, hafter] at hend
  exact ⟨more, hmore, hread, hend.mpr ⟨false, rfl⟩⟩

theorem isOpenName_of_unclosedNames {s : List Char} {names : List (List Char)}
    (h : unclosedNames? s = some names) : ∀ name ∈ names, IsOpenName name := by
  intro name hname
  obtain hnil | ⟨attributes, hmem⟩ := track_opened (unclosedNames?_eq_some.mp h).2 name hname
  · cases hnil
  · exact Mode.isOpenName_of_emits hmem

/-- End tags for all open elements are put behind a text at most once. -/
theorem nothing_unclosed_closeElements {s : List Char} {left : List (List Char)}
    (h : unclosedNames? (closeElements s) = some left) : left = [] := by
  rw [closeElements] at h
  cases hnames : unclosedNames? s with
  | none =>
    rw [hnames, Option.getD_none, List.flatMap_nil, List.append_nil, hnames] at h
    cases h
  | some names =>
    rw [hnames, Option.getD_some] at h
    obtain ⟨⟨seen, hafter⟩, htrack⟩ := unclosedNames?_eq_some.mp hnames
    obtain ⟨hmem, hnil⟩ | ⟨lead, rest, hlead, rfl, hfrom⟩ := fromMarkup_cases s
    · -- Without markup nothing is open.
      rw [hnil] at htrack
      obtain rfl := Option.some.inj htrack
      rw [List.flatMap_nil, List.append_nil, hnames] at h
      exact (Option.some.inj h).symm
    · obtain ⟨hrest, hclose⟩ := unclosedNames?_eq_some.mp h
      rw [hfrom] at hafter htrack
      have hsplit : fromMarkup (lead ++ '<' :: rest ++ names.flatMap endTag) =
          '<' :: rest ++ names.flatMap endTag := by
        rw [List.append_assoc, List.cons_append, fromMarkup_append hlead]
      rw [hsplit, Mode.after_append, hafter] at hrest
      rw [hsplit, Mode.emits_append, List.foldlM_append, htrack, hafter] at hclose
      exact nothing_of_endTags (isOpenName_of_unclosedNames hnames) hrest hclose

theorem unclosedNames?_declare (s : List Char) : unclosedNames? (declare s) = unclosedNames? s := by
  unfold declare
  split
  · rfl
  · refine Option.ext fun names => ?_
    have hline : declaration.toList ++ '\n' :: s = declaration.toList ++ ['\n'] ++ s := by simp
    have hfrom : fromMarkup (declaration.toList ++ '\n' :: s) = declaration.toList ++ '\n' :: s := rfl
    have hstay : (Mode.content false).after (declaration.toList ++ ['\n']) = .content false := by
      decide +kernel
    have hnothing : (Mode.content false).emits (declaration.toList ++ ['\n']) = [] := by
      decide +kernel
    obtain ⟨hemits, hafter⟩ := Mode.append_of_unseen hstay hnothing s
    obtain ⟨lead, hlead, hmarkup, hcontent⟩ := Mode.emits_fromMarkup false s
    rw [unclosedNames?_eq_some, unclosedNames?_eq_some, hfrom, hline,
      hemits, hafter, hmarkup, hcontent]
    obtain rfl | rfl := hlead <;> rfl

/-- Whatever a text is, repair leaves nothing open that end tags could close. -/
theorem nothing_unclosed_repair {content : String} {left : List (List Char)}
    (h : unclosedNames? (repair content).content.toList = some left) : left = [] := by
  rw [content_repair, String.toList_ofList, unclosedNames?_declare] at h
  exact nothing_unclosed_closeElements h

theorem not_blank_declare (s : List Char) : (declare s).all Text.isBlank = false := by
  rw [List.all_eq_false]
  refine ⟨'<', ?_, by decide⟩
  unfold declare
  split
  · next h =>
    obtain ⟨rest, hrest⟩ := Option.isSome_iff_exists.mp h
    have hmem : '<' ∈ Text.trimStart s := by
      rw [Text.stripStart?_eq_some.mp hrest]
      simp
    exact (List.dropWhile_suffix _).subset hmem
  · exact List.mem_append_left _ (by decide)

end Repair

namespace Builder

theorem exists_closed {b : Builder} (hb : b.Sound) {more : List Markup}
    (hmore : more = [] ∨ more = [.characters]) : ∃ closed,
      (more ++ b.openNames.map Markup.closing).foldlM take b = some closed ∧ closed.unclosed = [] := by
  obtain rfl | rfl := hmore
  · exact ⟨_, b.run_closing, rfl⟩
  · have hnames : b.markText.openNames = b.openNames := by
      rw [← names_within hb b.within_markText, openNames, unclosed_markText]
      rfl
    exact ⟨_, hnames ▸ b.markText.run_closing, rfl⟩

theorem namesAvoid_of_run {b : Builder} {markup : List Markup} {marks : List Char}
    (h : markup.foldlM take {} = some b) (hmarkup : ∀ m ∈ markup, m.Avoids marks) :
    b.document.NamesAvoid marks := by
  intro id hid
  obtain ⟨before, m, after, stack, hsplit, hm, -, -, hrecords⟩ := records_of_lt h hid
  obtain ⟨name, attributes, hstart⟩ : ∃ name attributes, m.start? = some (name, attributes) := by
    cases m with
    | opening name attributes | void name attributes => exact ⟨name, attributes, rfl⟩
    | closing | characters => cases hm
  obtain ⟨hname, hread⟩ := hrecords.tag name attributes hstart
  have havoid := hmarkup m (by simp [hsplit])
  refine ⟨fun c hc => ?_, fun a ha c hc => ?_⟩
  · rw [hname, String.toList_ofList]
    exact (havoid c hc).1 _ hstart
  · obtain ⟨ws, hspells⟩ := Spells.exists_of_read hread
    obtain ⟨-, hattributes⟩ := hspells.read?_eq_some.mp hread
    have hpairs := Markup.pairs_eq hstart hspells
    have hmem : some a ∈ ws.map Spelling.attribute? := hattributes ▸ List.mem_map_of_mem ha
    obtain ⟨w, hw, hattribute⟩ := List.mem_map.mp hmem
    rw [(Spelling.attribute?_eq_some.mp hattribute).1]
    exact (havoid c hc).2 (w.key, w.raw) (hpairs ▸ List.mem_map_of_mem hw)

theorem plain_openNames {s : List Char} {b : Builder}
    (h : ((Mode.content false).emits s).foldlM take {} = some b)
    (hnames : b.document.NamesAvoid ['"', '\'']) :
    ∀ name ∈ b.openNames, IsTagName name ∧ '"' ∉ name ∧ '\'' ∉ name := by
  have hsound := sound_takeAll sound_empty h
  have htags := tagNames_run (b := {}) nofun (Mode.named_of_emits (m := .content false) trivial) h
  intro name hname
  obtain ⟨id, hid, rfl⟩ := List.mem_map.mp hname
  have hlt := hsound.open_lt id hid
  have hno := (hnames id hlt).1
  exact ⟨htags id hlt, hno '"' (by simp), hno '\'' (by simp)⟩

theorem malformed_of_accept {b : Builder} {p : Placed} {e : ParseError} (h : b.accept p = .error e) :
    ∃ fault, e = .malformed p.after fault := by
  have hadd {name attributes : List Char} {e : ParseError}
      (h : b.add p.after name attributes = .error e) : ∃ fault, e = .malformed p.after fault := by
    unfold add at h
    split at h
    · exact ⟨_, (Except.error.inj h).symm⟩
    · split at h
      · exact ⟨_, (Except.error.inj h).symm⟩
      · cases h
  unfold accept at h
  split at h
  · next name attributes _ =>
    cases hopened : b.add p.after name attributes with
    | error e' =>
      rw [hopened] at h
      obtain rfl := Except.error.inj h
      exact hadd hopened
    | ok b' =>
      rw [hopened] at h
      cases h
  · exact hadd h
  · split at h
    · split at h
      · cases h
      · exact ⟨_, (Except.error.inj h).symm⟩
    · exact ⟨_, (Except.error.inj h).symm⟩
  · cases h

theorem malformed_of_run {b : Builder} {markup : List Placed} {e : ParseError}
    (h : markup.foldlM accept b = .error e) : ∃ position fault, e = .malformed position fault := by
  induction markup generalizing b with
  | nil => cases h
  | cons p rest ih =>
    rw [List.foldlM_cons] at h
    cases haccept : b.accept p with
    | error e' =>
      rw [haccept] at h
      obtain rfl := Except.error.inj h
      obtain ⟨fault, rfl⟩ := malformed_of_accept haccept
      exact ⟨_, fault, rfl⟩
    | ok b' =>
      rw [haccept] at h
      exact ih h

theorem finish_error_cases {b : Builder} {e : ParseError} (h : b.finish = .error e) :
    (∃ name, e = .unclosed name ∧ b.unclosed ≠ []) ∨ e = .noRoot := by
  unfold finish at h
  split at h
  · next heq => exact Or.inl ⟨_, (Except.error.inj h).symm, heq ▸ List.cons_ne_nil _ _⟩
  · split at h
    · exact Or.inr (Except.error.inj h).symm
    · cases h

end Builder

namespace Document

theorem parse_error_cases {content : String} {e : ParseError} (h : parse content = .error e) :
    e = .empty ∧ content.toList.all Text.isBlank ∨
      (∃ position fault, e = .malformed position fault) ∨
        (scan content.toList).atRest = true ∧ ∃ b,
          (scan content.toList).markup.foldlM Builder.accept {} = .ok b ∧ b.finish = .error e := by
  unfold parse parseChars at h
  split at h
  · next hblank => exact Or.inl ⟨(Except.error.inj h).symm, hblank⟩
  · simp only [bind, Except.bind] at h
    cases hrun : (scan content.toList).markup.foldlM Builder.accept {} with
    | error e' =>
      rw [hrun] at h
      obtain rfl := Except.error.inj h
      exact Or.inr (Or.inl (Builder.malformed_of_run hrun))
    | ok b =>
      rw [hrun] at h
      cases hrest : (scan content.toList).atRest with
      | false =>
        simp only [hrest, Bool.not_false, if_true] at h
        exact Or.inr (Or.inl ⟨_, _, (Except.error.inj h).symm⟩)
      | true =>
        simp only [hrest, Bool.not_true, Bool.false_eq_true, if_false] at h
        exact Or.inr (Or.inr ⟨rfl, b, rfl, h⟩)

theorem blank_of_empty {content : String} (h : parse content = .error .empty) :
    content.toList.all Text.isBlank := by
  obtain ⟨-, hblank⟩ | ⟨_, _, h⟩ | ⟨-, b, -, hfinish⟩ := parse_error_cases h
  · exact hblank
  · cases h
  · obtain ⟨name, h, -⟩ | h := Builder.finish_error_cases hfinish
    · cases h
    · cases h

/-- A text whose end is missing is complete up to end tags of elements that are open. -/
theorem open_of_unclosed {content name : String} (h : parse content = .error (.unclosed name)) :
    ((Mode.content false).after (fromMarkup content.toList)).IsContent ∧
      ∃ b, ((scan content.toList).markup.map Placed.markup).foldlM Builder.take {} = some b ∧
        b.unclosed ≠ [] := by
  obtain ⟨h, -⟩ | ⟨_, _, h⟩ | ⟨hrest, b, hrun, hfinish⟩ := parse_error_cases h
  · cases h
  · cases h
  · obtain ⟨_, -, hopen⟩ | h := Builder.finish_error_cases hfinish
    · exact ⟨(atRest_fromMarkup _).mp hrest, b, run_eq_ok.mp hrun, hopen⟩
    · cases h

theorem unclosedNames_of_unclosed {content name : String}
    (h : parse content = .error (.unclosed name)) :
    ∃ names, names ≠ [] ∧ Repair.unclosedNames? content.toList = some names := by
  obtain ⟨hrest, b, hrun, hopen⟩ := open_of_unclosed h
  refine ⟨b.openNames, by simpa [Builder.openNames] using hopen, ?_⟩
  exact Repair.unclosedNames_eq hrest (run_fromMarkup content.toList ▸ hrun)

theorem countP_closing {more : List Markup} (hmore : more = [] ∨ more = [.characters])
    (names : List (List Char)) : (more ++ names.map Markup.closing).countP (·.isStart) = 0 := by
  rw [List.countP_eq_zero]
  intro m hm
  obtain hm | hm := List.mem_append.mp hm
  · obtain rfl | rfl := hmore
    · cases hm
    · rw [List.mem_singleton.mp hm]
      exact Bool.false_ne_true
  · obtain ⟨name, -, rfl⟩ := List.mem_map.mp hm
    exact Bool.false_ne_true

theorem Preorder.front {d : Document} {markup more : List Markup} (h : d.Preorder (markup ++ more))
    (hmore : more.countP (·.isStart) = 0) : d.Preorder markup where
  size_pos := h.size_pos
  size_eq := by rw [h.size_eq, List.countP_append, hmore, Nat.add_zero]
  tag before m after hsplit := h.tag before m (after ++ more) (by simp [hsplit])
  parent_iff before m after hsplit := h.parent_iff before m (after ++ more) (by simp [hsplit])
  root := h.root
  depth_root := h.depth_root
  parent := h.parent
  mem_children := h.mem_children
  children_ascending := h.children_ascending
  block := h.block

/-- If nothing but end tags is missing and names have neither quotes nor ampersands, the elements that
were opened are those of the document that results. -/
theorem parse?_repair_unclosed {content name : String} (h : parse content = .error (.unclosed name))
    (hmarkup : ∀ m ∈ (scan content.toList).markup.map Placed.markup, m.Avoids ['&', '"', '\'']) :
    ∃ d, parse? (repair content).content = some d ∧
      d.Preorder ((scan content.toList).markup.map Placed.markup) := by
  obtain ⟨hrest, b, hrun, hopen⟩ := open_of_unclosed h
  have hsound := Builder.sound_takeAll Builder.sound_empty hrun
  have hpos : 0 < b.document.size := by
    obtain ⟨id, hid⟩ := List.exists_mem_of_ne_nil _ hopen
    exact Nat.lt_of_le_of_lt (Nat.zero_le id) (hsound.open_lt id hid)
  have hroot : 0 < startTags content.toList := by
    have hcount : startTags content.toList =
        ((scan content.toList).markup.map Placed.markup).countP (·.isStart) := by
      rw [List.countP_map]
      rfl
    rwa [hcount, ← Builder.size_run hrun]
  obtain ⟨lead, init, tail, htext, hlead, htail⟩ := exists_captured hroot
  have hcore := run_fromMarkup content.toList ▸ hrun
  rw [htext, fromMarkup_append hlead] at hrest hcore
  obtain ⟨⟨seen, hafter⟩, hemits⟩ := Mode.read_captured htail hrest
  rw [hemits] at hcore
  -- The names of the open elements are put behind the text in end tags.
  have havoid := Builder.namesAvoid_of_run hrun hmarkup
  have hnames := Builder.plain_openNames hcore (havoid.mono (by simp))
  obtain ⟨more, hmore, hread, hend⟩ := Repair.read_endTags_behind seen hnames
  obtain ⟨c, hclose, hclosed⟩ := Builder.exists_closed hsound hmore
  have hsize : c.document.size ≠ 0 :=
    Nat.ne_of_gt (Nat.lt_of_lt_of_le hpos (Builder.within_run hclose).1.size_le)
  refine ⟨c.document, ?_, ?_⟩
  · rw [Repair.content_repair, htext, Repair.trimNoise_eq hlead htail]
    refine Repair.parse?_closed _ ⟨seen, hafter⟩ hcore (havoid.mono (by simp)) hsize ?_ ?_ hclosed
    · rw [hafter]
      exact hend
    · rw [hafter, hread]
      exact hclose
  · have hall : (((scan content.toList).markup.map Placed.markup) ++
        (more ++ b.openNames.map Markup.closing)).foldlM Builder.take {} = some c := by
      rw [List.foldlM_append, hrun]
      exact hclose
    exact (preorder_of_run hall (Nat.pos_of_ne_zero hsize)).front (countP_closing hmore _)

/-- No element is left open by repair, and a text that only lacks end tags is mended. -/
theorem repair_closes (content : String) :
    (∀ name, parse (repair content).content ≠ .error (.unclosed name)) ∧
      parse (repair content).content ≠ .error .empty ∧
      ∀ name, parse content = .error (.unclosed name) →
        (∀ m ∈ (scan content.toList).markup.map Placed.markup, m.Avoids ['&', '"', '\'']) →
        ∃ d, parse? (repair content).content = some d ∧
          d.Preorder ((scan content.toList).markup.map Placed.markup) := by
  refine ⟨fun name h => ?_, fun h => ?_, fun name h hmarkup => parse?_repair_unclosed h hmarkup⟩
  · obtain ⟨names, hne, hnames⟩ := unclosedNames_of_unclosed h
    exact hne (Repair.nothing_unclosed_repair hnames)
  · have hblank := blank_of_empty h
    rw [Repair.content_repair, String.toList_ofList, Repair.not_blank_declare] at hblank
    cases hblank

/-- Quotes in values do no harm, and neither do brackets in text. -/
theorem repair_closes_tornPage :
    let content := "adb: <hierarchy><node text='a > \"b\" &amp; c'>x > y<leaf k=\"1\"/> z > end"
    parse content = .error (.unclosed "node") ∧
      (∀ m ∈ (scan content.toList).markup.map Placed.markup, m.Avoids ['&', '"', '\'']) ∧
      ∃ d, parse? (repair content).content = some d ∧
        d.Preorder ((scan content.toList).markup.map Placed.markup) := by
  intro content
  have hopen : parse content = .error (.unclosed "node") := by decide +kernel +zetaReduce
  have hmarkup : ∀ m ∈ (scan content.toList).markup.map Placed.markup,
      m.Avoids ['&', '"', '\''] := by decide +kernel +zetaReduce
  exact ⟨hopen, hmarkup, (repair_closes content).2.2 "node" hopen hmarkup⟩

end Document

end Replay.Xml
