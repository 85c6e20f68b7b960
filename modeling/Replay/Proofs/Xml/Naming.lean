import Mathlib.Data.List.TakeWhile
import Replay.Proofs.Text.Reading
import Replay.Proofs.Xml.Construction
set_option autoImplicit false

/-!
The names of elements. A tag begins with a name without white space, in which a closing bracket
stands behind a quote only (`Mode.named_of_emits`), and elements have no other names
(`Builder.tagNames_run`). Without quotes the end tag of such a name is read as just that
(`Repair.read_endTags`).
-/

namespace Replay.Xml

structure IsTagName (name : List Char) : Prop where
  unspaced : ∀ c ∈ name, isSpace c = false
  guarded : '>' ∈ name → '"' ∈ name ∨ '\'' ∈ name

namespace Markup

def Named : Markup → Prop
  | .opening name _ | .void name _ => IsTagName name
  | .closing _ | .characters => True

theorem ofTag_cases (body : List Char) :
    (∃ rest, body = '/' :: rest ∧ ofTag body = .closing (closingName rest)) ∨
      ∃ name attributes slash, body = name ++ (attributes ++ slash) ∧
        (∀ c ∈ name, isSpace c = false) ∧ (slash = [] ∨ slash = ['/']) ∧
        (ofTag body = .opening name attributes ∨ ofTag body = .void name attributes) := by
  have hsplit (s : List Char) : s = s.takeWhile (!isSpace ·) ++ s.dropWhile (!isSpace ·) :=
    List.takeWhile_append_dropWhile.symm
  have hunspaced (s : List Char) : ∀ c ∈ s.takeWhile (!isSpace ·), isSpace c = false :=
    fun c hc => by simpa using List.mem_takeWhile_imp hc
  unfold ofTag
  dsimp only
  split
  · next rest => exact Or.inl ⟨rest, rfl, rfl⟩
  · split
    · next inner hinner =>
      refine Or.inr ⟨_, _, ['/'], ?_, hunspaced inner, Or.inr rfl, Or.inr rfl⟩
      rw [← List.append_assoc, ← hsplit inner]
      exact Text.stripEnd?_eq_some.mp hinner
    · exact Or.inr ⟨_, _, [], by rw [List.append_nil]; exact hsplit body, hunspaced body,
        Or.inl rfl, Or.inl rfl⟩

end Markup

def Guarded (body : List Char) : Prop :=
  ∀ front back, body = front ++ '>' :: back → '"' ∈ front ∨ '\'' ∈ front

theorem Guarded.push {body : List Char} {c : Char} (h : Guarded body)
    (hc : c = '>' → '"' ∈ body ∨ '\'' ∈ body) : Guarded (body ++ [c]) := by
  intro front back heq
  obtain ⟨more, hfront, hback⟩ | ⟨more, hbody, hlast⟩ := List.append_eq_append_iff.mp heq
  · cases more with
    | nil => exact hfront ▸ by simpa using hc (by simpa using (List.cons.inj hback).1)
    | cons x more => simp at hback
  · cases more with
    | nil =>
      have hsame : body = front := by simpa using hbody
      exact hsame ▸ hc (by simpa using (List.cons.inj hlast).1.symm)
    | cons x more => exact h front more (by rw [hbody, (List.cons.inj hlast).1])

theorem Markup.named_ofTag {body : List Char} (h : Guarded body) : (ofTag body).Named := by
  obtain ⟨rest, -, hof⟩ | ⟨name, attributes, slash, hbody, hunspaced, -, hof⟩ := ofTag_cases body
  · rw [hof]
    trivial
  · have hname : IsTagName name := by
      refine ⟨hunspaced, fun hgt => ?_⟩
      obtain ⟨front, back, hsplit, -⟩ := List.eq_append_cons_of_mem hgt
      have hquote := h front (back ++ (attributes ++ slash)) (by rw [hbody, hsplit]; simp)
      rw [hsplit]
      exact hquote.imp (List.mem_append_left _) (List.mem_append_left _)
    obtain hof | hof := hof
    · rwa [hof]
    · rwa [hof]

namespace Mode

def Guards : Mode → Prop
  | .tag quote body => Guarded body.reverse ∧ (quote ≠ none → '"' ∈ body ∨ '\'' ∈ body)
  | _ => True

end Mode

def Effect.Proper : Effect → Prop
  | .goOn m => m.Guards
  | .finish markup => ∀ mk ∈ markup, mk.Named

namespace Mode

theorem proper_tag {quote : Option Char} {body : List Char} (h : (tag quote body).Guards)
    (c : Char) : (tagEffect quote body c).Proper := by
  obtain ⟨hbody, hquote⟩ := h
  unfold tagEffect
  split
  · next q =>
    have hany := hquote nofun
    refine ⟨?_, fun _ => hany.imp (List.mem_cons_of_mem c) (List.mem_cons_of_mem c)⟩
    rw [List.reverse_cons]
    exact hbody.push fun _ => by simpa using hany
  · split
    · rintro mk hmk
      obtain rfl := Option.some.inj hmk
      exact Markup.named_ofTag hbody
    · next hc =>
      refine ⟨?_, fun hne => ?_⟩
      · rw [List.reverse_cons]
        exact hbody.push fun heq => absurd heq hc
      · split at hne
        · next hq =>
          simp only [Bool.or_eq_true, decide_eq_true_eq] at hq
          obtain rfl | rfl := hq
          · exact Or.inr List.mem_cons_self
          · exact Or.inl List.mem_cons_self
        · exact absurd rfl hne

theorem proper_effect {m : Mode} (h : m.Guards) (c : Char) : (m.effect c).Proper := by
  cases m with
  | bracket =>
    have hstart : (tag none []).Guards :=
      ⟨fun front back hnil => by simp at hnil, fun hne => absurd rfl hne⟩
    change (bracketEffect c).Proper
    unfold bracketEffect
    split
    · trivial
    · split
      · trivial
      · exact proper_tag hstart c
  | tag quote body => exact proper_tag h c
  | _ =>
    simp only [effect, contentEffect, declarationEffect, commentEffect, sectionKeywordEffect,
      characterSectionEffect, doctypeKeywordEffect, doctypeEffect, instructionEffect]
    grind [Effect.Proper, Guards, Markup.Named]

theorem named_of_emits {m : Mode} (h : m.Guards) {s : List Char} : ∀ mk ∈ m.emits s, mk.Named := by
  induction s generalizing m with
  | nil => nofun
  | cons c s ih =>
    have hstep : (m.step c).Guards ∧ ∀ mk ∈ m.yield c, mk.Named := by
      by_cases hcontent : m.IsContent ∧ c = '<'
      · obtain ⟨⟨seen, rfl⟩, rfl⟩ := hcontent
        refine ⟨trivial, ?_⟩
        cases seen
        · nofun
        · rintro mk (_ | _)
          · trivial
          · contradiction
      · have hproper := proper_effect h c
        rw [step_of_effect hcontent, yield_of_effect hcontent]
        cases heffect : m.effect c with
        | goOn m' =>
          rw [heffect] at hproper
          exact ⟨hproper, nofun⟩
        | finish markup =>
          rw [heffect] at hproper
          exact ⟨trivial, fun mk hmk => hproper mk (by simpa using hmk)⟩
    rw [emits_cons]
    intro mk hmk
    obtain hmk | hmk := List.mem_append.mp hmk
    · exact hstep.2 mk hmk
    · exact ih hstep.1 mk hmk

end Mode

namespace Builder

def TagNames (b : Builder) : Prop := ∀ id < b.document.size, IsTagName (b.document.name id).toList

theorem tagNames_take {b b' : Builder} (hb : b.TagNames) {m : Markup} (hm : m.Named)
    (h : b.take m = some b') : b'.TagNames := by
  obtain ⟨hwithin, hsize⟩ := within_take h
  have hold {id : Nat} (hid : id < b.document.size) : IsTagName (b'.document.name id).toList := by
    rw [hwithin.name_eq hid]
    exact hb id hid
  -- Only a tag that adds an element adds a name, which is that of the tag.
  have hnew {name : List Char} (hname : b'.document.name b.document.size = String.ofList name)
      (htag : IsTagName name) (hadd : b'.document.size = b.document.size + 1) : b'.TagNames := by
    intro id hid
    obtain hlt | rfl := Nat.lt_succ_iff_lt_or_eq.mp (hadd ▸ hid)
    · exact hold hlt
    · rwa [hname, String.toList_ofList]
  cases takes_of_take h with
  | opening hadd =>
    obtain ⟨-, hsize', -, hname, -⟩ := add_spec hadd
    exact hnew hname hm hsize'
  | void hadd =>
    obtain ⟨-, hsize', -, hname, -⟩ := add_spec hadd
    exact hnew hname hm hsize'
  | closing => exact hb
  | characters => exact fun id hid => hold (Nat.lt_of_lt_of_eq hid hsize)

theorem tagNames_run {b b' : Builder} (hb : b.TagNames) {markup : List Markup}
    (hmarkup : ∀ m ∈ markup, m.Named) (h : markup.foldlM take b = some b') : b'.TagNames := by
  induction markup generalizing b with
  | nil =>
    obtain rfl := Option.some.inj h
    exact hb
  | cons m rest ih =>
    rw [List.foldlM_cons] at h
    obtain ⟨b₁, hm, hrest⟩ := Option.bind_eq_some_iff.mp h
    exact ih (tagNames_take hb (hmarkup m List.mem_cons_self) hm)
      (fun m' hm' => hmarkup m' (List.mem_cons_of_mem m hm')) hrest

end Builder

theorem closingName_of_spaces {s : List Char} (h : ∀ c ∈ s, isSpace c) : closingName s = s := by
  have hnil : s.reverse.dropWhile isSpace = [] := by simpa using h
  simp [closingName, hnil]

theorem closingName_append {name spaces : List Char} {c : Char} (hlast : name.getLast? = some c)
    (hc : isSpace c = false) (hspaces : ∀ c ∈ spaces, isSpace c) :
    closingName (name ++ spaces) = name := by
  obtain ⟨front, rfl⟩ := List.getLast?_eq_some_iff.mp hlast
  have hdrop : (front ++ [c] ++ spaces).reverse.dropWhile isSpace = (front ++ [c]).reverse := by
    rw [List.reverse_append, List.dropWhile_append_of_pos (by simpa using hspaces),
      List.reverse_append, List.reverse_singleton, List.singleton_append,
      List.dropWhile_cons_of_neg (by simp [hc])]
  unfold closingName
  dsimp only
  rw [hdrop, List.reverse_reverse]
  exact if_neg (by simp)

theorem closingName_cases (s : List Char) : (∀ c ∈ s, isSpace c) ∨
    ∃ name spaces c, name.getLast? = some c ∧ isSpace c = false ∧ (∀ c ∈ spaces, isSpace c) ∧
      s = name ++ spaces := by
  cases hback : s.reverse.dropWhile isSpace with
  | nil => exact Or.inl (by simpa using hback)
  | cons c front =>
    have hhead := List.head?_dropWhile_not isSpace s.reverse
    rw [hback] at hhead
    refine Or.inr ⟨front.reverse ++ [c], (s.reverse.takeWhile isSpace).reverse, c, by simp,
      by simpa using hhead, fun x hx => List.mem_takeWhile_imp (List.mem_reverse.mp hx), ?_⟩
    rw [← List.reverse_cons, ← hback, ← List.reverse_append, List.takeWhile_append_dropWhile,
      List.reverse_reverse]

namespace Repair

theorem closingName_eq {name : List Char} (h : ∀ c ∈ name, isSpace c = false) :
    closingName name = name := by
  cases hlast : name.getLast? with
  | none =>
    rw [List.getLast?_eq_none_iff.mp hlast]
    rfl
  | some c =>
    have hspaces : ∀ c ∈ ([] : List Char), isSpace c := nofun
    have hclosing := closingName_append hlast (h c (List.mem_of_getLast? hlast)) hspaces
    rwa [List.append_nil] at hclosing

/-- The end tag of a name is read as an end tag with that name. -/
theorem read_endTag {name : List Char} (hname : IsTagName name) (hdouble : '"' ∉ name)
    (hsingle : '\'' ∉ name) :
    (Mode.content false).after (endTag name) = .content false ∧
      (Mode.content false).emits (endTag name) = [.closing name] := by
  have hplain : ∀ c ∈ name, Mode.IsPlain c := by
    intro c hc
    have hgt : '>' ∉ name := fun hgt => (hname.guarded hgt).elim hdouble hsingle
    exact ⟨fun heq => hgt (heq ▸ hc), fun heq => hdouble (heq ▸ hc), fun heq => hsingle (heq ▸ hc)⟩
  obtain ⟨hafter, hemits⟩ := Mode.tag_plain ['/'] hplain
  have hopen : (Mode.content false).after ['<', '/'] = .tag none ['/'] ∧
      (Mode.content false).emits ['<', '/'] = [] := ⟨rfl, rfl⟩
  have htag : endTag name = ['<', '/'] ++ (name ++ ['>']) := rfl
  have hbody : (name.reverse ++ ['/']).reverse = '/' :: name := by simp
  rw [htag, Mode.after_append, Mode.emits_append, hopen.1, hopen.2, Mode.after_append,
    Mode.emits_append, hafter, hemits]
  refine ⟨rfl, ?_⟩
  change [Markup.ofTag (name.reverse ++ ['/']).reverse] = _
  rw [hbody]
  exact congrArg (fun n => [Markup.closing n]) (closingName_eq hname.unspaced)

theorem read_endTags {names : List (List Char)}
    (h : ∀ name ∈ names, IsTagName name ∧ '"' ∉ name ∧ '\'' ∉ name) :
    (Mode.content false).after (names.flatMap endTag) = .content false ∧
      (Mode.content false).emits (names.flatMap endTag) = names.map .closing := by
  induction names with
  | nil => exact ⟨rfl, rfl⟩
  | cons name names ih =>
    obtain ⟨hname, hdouble, hsingle⟩ := h name List.mem_cons_self
    obtain ⟨hafter, hemits⟩ := read_endTag hname hdouble hsingle
    obtain ⟨hafter', hemits'⟩ := ih fun n hn => h n (List.mem_cons_of_mem name hn)
    rw [List.flatMap_cons, Mode.after_append, Mode.emits_append, hafter, hemits, hafter', hemits']
    exact ⟨rfl, rfl⟩

end Repair

end Replay.Xml
