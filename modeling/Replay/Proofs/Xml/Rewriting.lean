import Replay.Proofs.Xml.Naming
set_option autoImplicit false

/-!
Texts that are rewritten. A rewriting that keeps to what stands between white space and slashes
(`Piecewise`) rewrites the names and the attributes of a tag, each on its own (`Piecewise.ofTag`). A
text and its rewriting are read alike if they are cut at the same tags (`Mode.Reading`) and each tag
is read as a rewritten one (`ReadAlike`).
-/

namespace Replay.Xml

/-- Tags are taken apart at these characters. -/
def IsStop (c : Char) : Prop := isSpace c ∨ c = '/'

structure Piecewise (T : List Char → List Char) : Prop where
  head?_eq : ∀ s, (T s).head? = s.head?
  append_cons : ∀ {c}, IsStop c → ∀ front back, T (front ++ c :: back) = T front ++ c :: T back
  mem : ∀ {s c}, IsStop c → c ∈ T s → c ∈ s
  getLast?_iff : ∀ {s c}, IsStop c → ((T s).getLast? = some c ↔ s.getLast? = some c)

def Markup.rewritten (T : List Char → List Char) : Markup → Markup
  | .opening name attributes => .opening (T name) (T attributes)
  | .void name attributes => .void (T name) (T attributes)
  | .closing name => .closing (T name)
  | .characters => .characters

namespace Piecewise

variable {T : List Char → List Char} (hT : Piecewise T)
include hT

theorem nil : T [] = [] := List.head?_eq_none_iff.mp (hT.head?_eq [])

theorem cons {c : Char} (hc : IsStop c) (s : List Char) : T (c :: s) = c :: T s := by
  have happend := hT.append_cons hc [] s
  rwa [hT.nil] at happend

theorem append {back : List Char} (h : ∀ c ∈ back.head?, IsStop c) (front : List Char) :
    T (front ++ back) = T front ++ T back := by
  cases back with
  | nil => simp [hT.nil]
  | cons c back => rw [hT.append_cons (h c rfl), hT.cons (h c rfl)]

theorem spaces {s : List Char} (h : ∀ c ∈ s, isSpace c) : T s = s := by
  induction s with
  | nil => exact hT.nil
  | cons c s ih =>
    obtain ⟨hc, hs⟩ := List.forall_mem_cons.mp h
    rw [hT.cons (Or.inl hc), ih hs]

theorem unspaced {s : List Char} (h : ∀ c ∈ s, isSpace c = false) :
    ∀ c ∈ T s, isSpace c = false := by
  intro c hc
  by_contra hspace
  have hstop : isSpace c := by simpa using hspace
  exact hspace (h c (hT.mem (Or.inl hstop) hc))

theorem splitSpace (s : List Char) :
    (T s).takeWhile (!isSpace ·) = T (s.takeWhile (!isSpace ·)) ∧
      (T s).dropWhile (!isSpace ·) = T (s.dropWhile (!isSpace ·)) := by
  have hfront : ∀ c ∈ T (s.takeWhile (!isSpace ·)), (!isSpace c) = true := by
    have hunspaced := hT.unspaced (s := s.takeWhile (!isSpace ·))
      fun c hc => by simpa using List.mem_takeWhile_imp hc
    exact fun c hc => by simpa using hunspaced c hc
  have hback : ∀ c ∈ (s.dropWhile (!isSpace ·)).head?, isSpace c := by
    intro c hc
    have hhead := List.head?_dropWhile_not (!isSpace ·) s
    rw [Option.mem_def.mp hc] at hhead
    simpa using hhead
  have hsplit : T s = T (s.takeWhile (!isSpace ·)) ++ T (s.dropWhile (!isSpace ·)) := by
    rw [← hT.append fun c hc => Or.inl (hback c hc), List.takeWhile_append_dropWhile]
  rw [hsplit, List.takeWhile_append_of_pos hfront, List.dropWhile_append_of_pos hfront]
  rw [← hT.head?_eq] at hback
  cases hrest : T (s.dropWhile (!isSpace ·)) with
  | nil => simp
  | cons c rest =>
    have hc : isSpace c := hback c (by rw [hrest]; rfl)
    simp [hc]

theorem closingName (s : List Char) : Xml.closingName (T s) = T (Xml.closingName s) := by
  obtain hspaces | ⟨name, spaces, c, hlast, hc, hspaces, rfl⟩ := closingName_cases s
  · rw [hT.spaces hspaces, closingName_of_spaces hspaces, hT.spaces hspaces]
  · have hbehind : ∀ x ∈ spaces.head?, IsStop x := fun x hx =>
      Or.inl (hspaces x (List.mem_of_mem_head? hx))
    rw [hT.append hbehind, hT.spaces hspaces, closingName_append hlast hc hspaces]
    -- The name that is left may end in another character, but not in white space.
    have hne : name ≠ [] := by
      rintro rfl
      simp at hlast
    cases hlast' : (T name).getLast? with
    | none =>
      have hnil := List.getLast?_eq_none_iff.mp hlast'
      have hhead := hT.head?_eq name
      rw [hnil] at hhead
      exact absurd (List.head?_eq_none_iff.mp hhead.symm) hne
    | some x =>
      refine closingName_append hlast' ?_ hspaces
      by_contra hspace
      have hx : isSpace x := by simpa using hspace
      have hsame := (hT.getLast?_iff (Or.inl hx)).mp hlast'
      rw [hlast] at hsame
      rw [← Option.some.inj hsame, hc] at hx
      cases hx

theorem ofTag (body : List Char) : Markup.ofTag (T body) = (Markup.ofTag body).rewritten T := by
  have hslash : IsStop '/' := Or.inr rfl
  by_cases hhead : body.head? = some '/'
  · obtain ⟨rest, rfl⟩ := List.head?_eq_some_iff.mp hhead
    rw [hT.cons hslash]
    exact congrArg Markup.closing (hT.closingName rest)
  · rw [Markup.ofTag_of_head? hhead, Markup.ofTag_of_head? (by rwa [hT.head?_eq])]
    cases hend : Text.stripEnd? ['/'] body with
    | some inner =>
      obtain rfl := Text.stripEnd?_eq_some.mp hend
      have hkept : T (inner ++ ['/']) = T inner ++ ['/'] := by
        rw [hT.append_cons hslash, hT.nil]
      rw [Text.stripEnd?_eq_some.mpr hkept]
      dsimp only
      rw [(hT.splitSpace inner).1, (hT.splitSpace inner).2]
      rfl
    | none =>
      have hkept : Text.stripEnd? ['/'] (T body) = none := by
        rw [Option.eq_none_iff_forall_ne_some] at hend ⊢
        intro inner hinner
        have hlast : (T body).getLast? = some '/' := by
          rw [Text.stripEnd?_eq_some.mp hinner, List.getLast?_concat]
        obtain ⟨front, hfront⟩ := List.getLast?_eq_some_iff.mp ((hT.getLast?_iff hslash).mp hlast)
        exact hend front (Text.stripEnd?_eq_some.mpr hfront)
      rw [hkept]
      dsimp only
      rw [(hT.splitSpace body).1, (hT.splitSpace body).2]
      rfl

end Piecewise

def ReadAlike (g : Markup → Markup) (m : Mode) (s s' : List Char) : Prop :=
  m.emits s' = (m.emits s).map g ∧ ((m.after s').IsContent ↔ (m.after s).IsContent)

namespace Mode

theorem outside_step {m : Mode} (h : ¬ m.InTag) (c : Char) :
    (m.step c = .bracket ∨ ¬ (m.step c).InTag) ∧ ∀ mk ∈ m.yield c, mk = .characters := by
  by_cases hcontent : m.IsContent ∧ c = '<'
  · obtain ⟨⟨seen, rfl⟩, rfl⟩ := hcontent
    exact ⟨Or.inl rfl, by cases seen <;> simp [yield]⟩
  · rw [step_of_effect hcontent, yield_of_effect hcontent]
    cases m <;> simp only [effect, contentEffect, bracketEffect, tagEffect, declarationEffect,
      commentEffect, sectionKeywordEffect, characterSectionEffect, doctypeKeywordEffect,
      doctypeEffect, instructionEffect] <;> grind [InTag]

inductive Reading : Mode → List Char → Prop where
  | nil {m : Mode} : Reading m []
  | outside {m : Mode} (htag : ¬ m.InTag) (c : Char) {s : List Char} (h : Reading (m.step c) s) :
      Reading m (c :: s)
  | mark {c : Char} (hc : c = '!' ∨ c = '?') {s : List Char} (h : Reading (bracket.step c) s) :
      Reading bracket (c :: s)
  | unclosed {s : List Char} (hhead : ∀ c ∈ s.head?, c ≠ '!' ∧ c ≠ '?') (hstays : Stays none s) :
      Reading bracket s
  | tag {inner rest : List Char} (hhead : ∀ c ∈ inner.head?, c ≠ '!' ∧ c ≠ '?')
      (hstays : Stays none inner) (hclosed : inner.foldl quoteAfter none = none)
      (h : Reading (content false) rest) : Reading bracket (inner ++ '>' :: rest)

/-- A tag does not begin with the mark of something else, whatever stands behind it. -/
theorem unmarked_tag {inner : List Char} (h : ∀ c ∈ inner.head?, c ≠ '!' ∧ c ≠ '?')
    (rest : List Char) : ∀ c ∈ (inner ++ '>' :: rest).head?, c ≠ '!' ∧ c ≠ '?' := by
  cases inner with
  | nil => simp
  | cons c inner => exact h

theorem reading {m : Mode} (hm : m = .bracket ∨ ¬ m.InTag) (s : List Char) : m.Reading s := by
  induction hn : s.length using Nat.strongRecOn generalizing m s with
  | ind n ih =>
    obtain rfl | htag := hm
    · by_cases hmark : ∃ c ∈ s.head?, c = '!' ∨ c = '?'
      · obtain ⟨c, hhead, hc⟩ := hmark
        obtain ⟨s, rfl⟩ := List.head?_eq_some_iff.mp hhead
        refine .mark hc (ih s.length (by simp [← hn]) (Or.inr ?_) s rfl)
        obtain rfl | rfl := hc <;> simp [step, effect, bracketEffect, InTag]
      · have hhead : ∀ c ∈ s.head?, c ≠ '!' ∧ c ≠ '?' := fun c hc =>
          not_or.mp fun h => hmark ⟨c, hc, h⟩
        obtain hstays | ⟨inner, rest, hstays, hclosed, rfl⟩ := stays_cases none s
        · exact .unclosed hhead hstays
        · refine .tag (fun c hc => hhead c ?_) hstays hclosed
            (ih rest.length ?_ (Or.inr (by simp [InTag])) rest rfl)
          · obtain ⟨more, rfl⟩ := List.head?_eq_some_iff.mp hc
            rfl
          · simp only [← hn, List.length_append, List.length_cons]
            omega
    · cases s with
      | nil => exact .nil
      | cons c s => exact .outside htag c (ih s.length (by simp [← hn]) (outside_step htag c).1 s rfl)

theorem bracket_of_head? {s : List Char} (h : ∀ c ∈ s.head?, c ≠ '!' ∧ c ≠ '?') :
    bracket.emits s = (tag none []).emits s ∧
      ((bracket.after s).IsContent ↔ ((tag none []).after s).IsContent) := by
  cases s with
  | nil => exact ⟨rfl, iff_of_false (by simp [IsContent]) (by simp [IsContent])⟩
  | cons c s =>
    obtain ⟨hmark, hquestion⟩ := h c rfl
    obtain ⟨hafter, hemits⟩ := bracket_eq_tag hmark hquestion s
    rw [hafter, hemits]
    exact ⟨rfl, Iff.rfl⟩

end Mode

namespace ReadAlike

open Mode

variable {g : Markup → Markup} {m : Mode} {s s' : List Char}

theorem nil : ReadAlike g m [] [] := ⟨rfl, Iff.rfl⟩

theorem append {u u' : List Char} (hemits : m.emits u' = (m.emits u).map g)
    (hafter : m.after u' = m.after u) (h : ReadAlike g (m.after u) s s') :
    ReadAlike g m (u ++ s) (u' ++ s') := by
  rw [ReadAlike, emits_append, emits_append, after_append, after_append, hafter, hemits, h.1,
    List.map_append]
  exact ⟨rfl, h.2⟩

theorem cons {c : Char} (hyield : ∀ mk ∈ m.yield c, g mk = mk) (h : ReadAlike g (m.step c) s s') :
    ReadAlike g m (c :: s) (c :: s') := by
  have hsame : m.emits [c] = (m.emits [c]).map g := by
    rw [List.map_congr_left (g := id) fun mk hmk => hyield mk (by simpa [emits_cons] using hmk),
      List.map_id]
  have happend : ReadAlike g m ([c] ++ s) ([c] ++ s') := append hsame rfl h
  exact happend

theorem unclosed (hstays : Stays none s) (hstays' : Stays none s') :
    ReadAlike g (tag none []) s s' := by
  obtain ⟨hafter, hemits⟩ := scan_stays [] hstays
  obtain ⟨hafter', hemits'⟩ := scan_stays [] hstays'
  rw [ReadAlike, hafter, hemits, hafter', hemits']
  exact ⟨rfl, iff_of_false (not_isContent_tag _ _) (not_isContent_tag _ _)⟩

theorem closed {inner inner' : List Char} (hstays : Stays none inner)
    (hclosed : inner.foldl quoteAfter none = none) (hstays' : Stays none inner')
    (hclosed' : inner'.foldl quoteAfter none = none)
    (htag : Markup.ofTag inner' = g (.ofTag inner)) (h : ReadAlike g (content false) s s') :
    ReadAlike g (tag none []) (inner ++ '>' :: s) (inner' ++ '>' :: s') := by
  obtain ⟨hafter, hemits⟩ := scan_closed [] hstays hclosed s
  obtain ⟨hafter', hemits'⟩ := scan_closed [] hstays' hclosed' s'
  rw [ReadAlike, hafter, hemits, hafter', hemits', List.reverse_nil, List.nil_append,
    List.nil_append, htag, h.1]
  exact ⟨rfl, h.2⟩

theorem bracket (hhead : ∀ c ∈ s.head?, c ≠ '!' ∧ c ≠ '?') (hsame : s'.head? = s.head?)
    (h : ReadAlike g (tag none []) s s') : ReadAlike g bracket s s' := by
  obtain ⟨hemits, hafter⟩ := bracket_of_head? hhead
  obtain ⟨hemits', hafter'⟩ := bracket_of_head? (s := s') (by rwa [hsame])
  rw [ReadAlike, hemits, hemits', hafter, hafter']
  exact h

end ReadAlike

end Replay.Xml
