import Replay.Proofs.XPath.Acceptance
set_option autoImplicit false

/-!
Paths that are written and read back. A written text has no blanks but those around `and`, positions
without zeros in front, and round a literal either of the quotes that do not occur in it. Whatever
else a literal holds, brackets and conjunctions included, reading gives back the path.
-/

namespace Replay.XPath

def literal (quote : Char) (value : String) : List Char := quote :: (value.toList ++ [quote])

/-- The call of a function on an attribute and a literal; `name` has the opening parenthesis. -/
def call (name : List Char) (quote : Char) (key value : String) : List Char :=
  name ++ ('@' :: (key.toList ++ ',' :: literal quote value) ++ [')'])

def Condition.text (quote : Char) : Condition → List Char
  | .present key => '@' :: key.toList
  | .equals key value => '@' :: (key.toList ++ '=' :: literal quote value)
  | .contains key value => call "contains(".toList quote key value
  | .startsWith key value => call "starts-with(".toList quote key value

def Condition.Written (c : Condition) (s : List Char) : Prop :=
  IsRun c.key.toList ∧
    ∃ quote, IsQuote quote ∧ (∀ value ∈ c.literal?, quote ∉ value.toList) ∧ s = c.text quote

def Predicate.Written : Predicate → List Char → Prop
  | .position n, s => s = Nat.toDigits 10 n
  | .last, s => s = "last()".toList
  | .all conditions, s => ∃ texts, s = conjunction.intercalate texts ∧
      List.Forall₂ Condition.Written conditions texts

def Grammar.written : Grammar := ⟨fun _ => True, Predicate.Written⟩

structure Condition.Expressible (c : Condition) : Prop where
  key : IsRun c.key.toList
  literal : ∀ value ∈ c.literal?, ∃ quote, IsQuote quote ∧ quote ∉ value.toList

def Predicate.Expressible : Predicate → Prop
  | .position n => 0 < n ∧ n < UInt64.size
  | .last => True
  | .all conditions => conditions ≠ [] ∧ ∀ c ∈ conditions, c.Expressible

def NodeTest.Expressible : NodeTest → Prop
  | .name n => Reader.IsName n.toList
  | .attr n => IsRun n.toList
  | .any | .self | .text => True

/-- What can be said in the subset. -/
structure Path.Expressible (path : Path) : Prop where
  steps_ne_nil : path.steps ≠ []
  first_axis : path.absolute = false → ∀ st ∈ path.steps.head?, st.axis = .child
  tests : ∀ st ∈ path.steps, st.test.Expressible
  predicates : ∀ st ∈ path.steps, ∀ p ∈ st.predicates, p.Expressible

theorem IsRun.isBlank {n : List Char} (h : IsRun n) : ∀ c ∈ n, Text.isBlank c = false :=
  fun c hc => Reader.isBlank_of_isNameChar (List.all_eq_true.mp h.2 c hc)

theorem IsRun.not_mem {n : List Char} (h : IsRun n) {c : Char}
    (hc : Reader.isNameChar c = false) : c ∉ n := by
  intro hmem
  have hname := List.all_eq_true.mp h.2 c hmem
  rw [hc] at hname
  cases hname

section Literal

variable {quote : Char} (hquote : IsQuote quote)

include hquote

theorem isSolid_literal (value : String) : Text.IsSolid (literal quote value) := by
  have hend : Text.IsSolid [quote] := .of_all (by simp) (by simp [hquote.isBlank])
  simpa [literal] using hend.append hend value.toList

theorem quoted_literal (value : String) : Words.any.Quoted value.toList (literal quote value) :=
  ⟨quote, hquote, trivial, (isSolid_literal hquote value).trim⟩

theorem arguments_literal {key : String} (hkey : IsRun key.toList) (value : String) :
    Words.any.Arguments key value ('@' :: (key.toList ++ ',' :: literal quote value)) := by
  refine ⟨'@' :: key.toList, _, rfl, ?_, ?_, trivial, quoted_literal hquote value⟩
  · simpa using hkey.not_mem (c := ',') rfl
  · exact Text.trim_of_all (List.forall_mem_cons.mpr ⟨rfl, hkey.isBlank⟩)

theorem sealed_literal {value : String} (hvalue : quote ∉ value.toList) {stop tail : List Char} :
    Sealed stop tail (literal quote value) :=
  .quoted hquote hvalue .nil

end Literal

theorem isSolid_call {name : List Char} (hname : Text.IsSolid name) (quote : Char)
    (key value : String) : Text.IsSolid (call name quote key value) :=
  hname.append (.of_all (by decide) (by decide)) _

theorem IsRun.bare {n : List Char} (h : IsRun n) {x : Char} (hx : Reader.isNameChar x = false) :
    Bare x n := by
  refine fun c hc => ⟨?_, ?_⟩
  · rintro (rfl | rfl) <;> exact h.not_mem rfl hc
  · rintro rfl
    exact h.not_mem hx hc

theorem sealed_call {name : List Char} {quote : Char} {key value : String} {first : Char}
    (hopening : Bare first (name ++ ['@'])) (hkey : Bare first key.toList)
    (hcomma : Bare first [',']) (hclosing : Bare first [')']) (hquote : IsQuote quote)
    (hvalue : quote ∉ value.toList) {more tail : List Char} :
    Sealed (first :: more) tail (call name quote key value) := by
  have hcut : call name quote key value =
      (name ++ ['@'] ++ key.toList ++ [',']) ++ (literal quote value ++ [')']) := by
    simp [call]
  rw [hcut]
  exact .append_of_bare ((hopening.append hkey).append hcomma)
    (.append (sealed_literal hquote hvalue) (.of_bare hclosing))

namespace Condition

variable {c : Condition} {quote : Char} {s : List Char}

theorem Written.isSolid (h : c.Written s) : Text.IsSolid s := by
  obtain ⟨hkey, quote, hquote, -, rfl⟩ := h
  have hat : Text.IsSolid ['@'] := .of_all (by decide) (by decide)
  cases c with
  | present key => exact hat.append (.of_forall hkey.1 hkey.isBlank) []
  | equals key value =>
    have hends := hat.append (isSolid_literal hquote value) (key.toList ++ ['='])
    simpa [text] using hends
  | contains key value | startsWith key value =>
    exact isSolid_call (.of_all (by decide) (by decide)) quote key value

theorem Written.spelled (h : c.Written s) : c.Spelled .any s := by
  obtain ⟨hkey, quote, hquote, -, rfl⟩ := h
  cases c with
  | present key =>
    exact ⟨key.toList, rfl, hkey.not_mem rfl, Text.trim_of_all hkey.isBlank, trivial⟩
  | equals key value =>
    exact ⟨key.toList, _, rfl, hkey.not_mem rfl, Text.trim_of_all hkey.isBlank, trivial,
      quoted_literal hquote value⟩
  | contains key value | startsWith key value =>
    exact ⟨_, rfl, arguments_literal hquote hkey value⟩

theorem Written.sealed (h : c.Written s) {first : Char} (hfirst : first = ']' ∨ first = ' ')
    (more tail : List Char) : Sealed (first :: more) tail s := by
  obtain ⟨hkey, quote, hquote, hliteral, rfl⟩ := h
  have hkey : Bare first c.key.toList := hkey.bare (by obtain rfl | rfl := hfirst <;> decide)
  have hat : Bare first ['@'] := by obtain rfl | rfl := hfirst <;> decide
  cases c with
  | present key => exact .of_bare (hat.append hkey)
  | equals key value =>
    have hequals : Bare first ['='] := by obtain rfl | rfl := hfirst <;> decide
    have hcut : text quote (.equals key value) =
        (['@'] ++ key.toList ++ ['=']) ++ literal quote value := by simp [text]
    rw [hcut]
    exact .append_of_bare ((hat.append hkey).append hequals)
      (sealed_literal hquote (hliteral value rfl))
  | contains key value | startsWith key value =>
    refine sealed_call (.append ?_ hat) hkey ?_ ?_ hquote (hliteral value rfl) <;>
      obtain rfl | rfl := hfirst <;> decide

end Condition

theorem Conjuncts.of_sealed {texts : List (List Char)} (hne : texts ≠ [])
    (htexts : ∀ text ∈ texts, ∀ tail, Sealed conjunction tail text) :
    Conjuncts texts (conjunction.intercalate texts) := by
  induction texts with
  | nil => exact absurd rfl hne
  | cons text texts ih =>
    obtain ⟨htext, htexts⟩ := List.forall_mem_cons.mp htexts
    cases texts with
    | nil =>
      rw [List.intercalate_singleton]
      exact .last (htext [])
    | cons next texts =>
      rw [List.intercalate_cons_cons, List.append_assoc]
      exact .cons (htext conjunction) (ih nofun htexts)

theorem intercalate_induction {P : List Char → Prop} {texts : List (List Char)} (hne : texts ≠ [])
    (hlast : ∀ text ∈ texts, P text)
    (hcons : ∀ text ∈ texts, ∀ rest, P rest → P (text ++ (conjunction ++ rest))) :
    P (conjunction.intercalate texts) := by
  induction texts with
  | nil => exact absurd rfl hne
  | cons text texts ih =>
    obtain ⟨htext, htexts⟩ := List.forall_mem_cons.mp hlast
    obtain ⟨hfirst, hothers⟩ := List.forall_mem_cons.mp hcons
    cases texts with
    | nil => rwa [List.intercalate_singleton]
    | cons next texts =>
      rw [List.intercalate_cons_cons, List.append_assoc]
      exact hfirst _ (ih nofun htexts hothers)

theorem sealed_intercalate {texts : List (List Char)}
    (htexts : ∀ text ∈ texts, ∀ tail, Sealed [']'] tail text) :
    Sealed [']'] [] (conjunction.intercalate texts) := by
  by_cases hne : texts = []
  · exact hne ▸ .nil
  · exact intercalate_induction hne (fun text htext => htexts text htext []) fun text htext _ hrest =>
      (htexts text htext _).append (.append_of_bare bare_conjunction hrest)

theorem isSolid_intercalate {texts : List (List Char)} (hne : texts ≠ [])
    (htexts : ∀ text ∈ texts, Text.IsSolid text) :
    Text.IsSolid (conjunction.intercalate texts) :=
  intercalate_induction hne htexts fun text htext _ hrest =>
    (htexts text htext).append hrest conjunction

/-- Written predicates are spelled as the reader wants them. -/
theorem Predicate.Written.spelled {p : Predicate} {s : List Char} (h : p.Written s)
    (hp : p.Expressible) : p.Spelled .any s := by
  cases p with
  | position n =>
    obtain rfl := h
    exact Predicate.spelled_position hp.1 hp.2
  | last =>
    obtain rfl := h
    exact (by decide : Text.trim "last()".toList = "last()".toList)
  | all conditions =>
    obtain ⟨texts, rfl, htexts⟩ := h
    have hne : texts ≠ [] := by
      rintro rfl
      exact hp.1 (List.forall₂_nil_right_iff.mp htexts)
    have hsolid : ∀ text ∈ texts, Text.IsSolid text :=
      forall_right_of_forall₂ htexts fun c text h => h.isSolid
    have hbrackets : ∀ text ∈ texts, ∀ tail, Sealed [']'] tail text :=
      forall_right_of_forall₂ htexts fun c text h tail => h.sealed (Or.inl rfl) [] tail
    have hblanks : ∀ text ∈ texts, ∀ tail, Sealed conjunction tail text :=
      forall_right_of_forall₂ htexts fun c text h tail => h.sealed (Or.inr rfl) _ tail
    refine ⟨sealed_intercalate hbrackets, texts, ?_, htexts.imp fun c text h => ?_⟩
    · rw [(isSolid_intercalate hne hsolid).trim]
      exact .of_sealed hne hblanks
    · rw [h.isSolid.trim]
      exact h.spelled

theorem Step.carries_written {st : Step} (h : ∀ p ∈ st.predicates, p.Expressible) :
    st.Carries .written .accepted :=
  ⟨fun _ _ _ => trivial, fun p hp _ hbody => hbody.spelled (h p hp)⟩

section Existence

theorem Condition.Expressible.exists_written {c : Condition} (h : c.Expressible) :
    ∃ s, c.Written s := by
  cases c with
  | present key => exact ⟨_, h.key, '"', Or.inr rfl, nofun, rfl⟩
  | equals key value | contains key value | startsWith key value =>
    obtain ⟨quote, hquote, hvalue⟩ := h.literal value rfl
    refine ⟨_, h.key, quote, hquote, ?_, rfl⟩
    rintro _ ⟨⟩
    exact hvalue

theorem exists_texts {α β : Type} {r : α → β → Prop} {xs : List α} (h : ∀ x ∈ xs, ∃ y, r x y) :
    ∃ ys, List.Forall₂ r xs ys := by
  induction xs with
  | nil => exact ⟨[], .nil⟩
  | cons x xs ih =>
    obtain ⟨⟨y, hy⟩, hxs⟩ := List.forall_mem_cons.mp h
    obtain ⟨ys, hys⟩ := ih hxs
    exact ⟨y :: ys, .cons hy hys⟩

theorem Predicate.Expressible.exists_written {p : Predicate} (h : p.Expressible) :
    ∃ s, p.Written s := by
  cases p with
  | position n => exact ⟨_, rfl⟩
  | last => exact ⟨_, rfl⟩
  | all conditions =>
    obtain ⟨texts, htexts⟩ := exists_texts fun c hc => (h.2 c hc).exists_written
    exact ⟨_, texts, rfl, htexts⟩

theorem exists_bracketed {g : Grammar} {ps : List Predicate}
    (h : ∀ p ∈ ps, ∃ s, g.predicate p s) : ∃ s, Bracketed g ps s := by
  induction ps with
  | nil => exact ⟨[], .nil⟩
  | cons p ps ih =>
    obtain ⟨⟨s, hs⟩, hps⟩ := List.forall_mem_cons.mp h
    obtain ⟨rest, hrest⟩ := ih hps
    exact ⟨_, .cons hs hrest⟩

theorem NodeTest.Expressible.exists_spelled {t : NodeTest} (h : t.Expressible) :
    ∃ s, t.Spelled .written s := by
  cases t with
  | name n => exact ⟨_, rfl, h, trivial⟩
  | any => exact ⟨_, Or.inl rfl⟩
  | self => exact ⟨_, rfl⟩
  | attr n => exact ⟨_, rfl, h⟩
  | text => exact ⟨_, rfl⟩

theorem exists_separated {g : Grammar} {sts : List Step} (h : ∀ st ∈ sts, ∃ s, st.Spelled g s) :
    ∃ s, Separated g sts s := by
  induction sts with
  | nil => exact ⟨[], .nil⟩
  | cons st sts ih =>
    obtain ⟨⟨s, hs⟩, hsts⟩ := List.forall_mem_cons.mp h
    obtain ⟨rest, hrest⟩ := ih hsts
    exact ⟨_, .cons hs hrest⟩

theorem Path.Expressible.exists_written {path : Path} (h : path.Expressible) :
    ∃ s, path.Spelled .written s := by
  have hsteps : ∀ st ∈ path.steps, ∃ s, st.Spelled .written s := by
    intro st hst
    obtain ⟨test, htest⟩ := (h.tests st hst).exists_spelled
    obtain ⟨brackets, hbrackets⟩ := exists_bracketed (g := .written)
      fun p hp => (h.predicates st hst p hp).exists_written
    exact ⟨_, test, brackets, rfl, htest, hbrackets⟩
  obtain ⟨absolute, sts⟩ := path
  cases absolute with
  | true =>
    obtain ⟨s, hs⟩ := exists_separated hsteps
    exact ⟨s, .absolute h.steps_ne_nil hs⟩
  | false =>
    obtain ⟨st, sts, rfl⟩ := List.exists_cons_of_ne_nil h.steps_ne_nil
    obtain ⟨⟨s, hs⟩, hsts⟩ := List.forall_mem_cons.mp hsteps
    obtain ⟨rest, hrest⟩ := exists_separated hsts
    exact ⟨_, .relative (h.first_axis rfl st rfl) hs hrest⟩

end Existence

/-- What can be said in the subset can be written, and however it is written it is read back. -/
theorem parse_written {path : Path} (h : path.Expressible) :
    (∃ s, path.Spelled .written s) ∧
      ∀ s, path.Spelled .written s → parse (String.ofList s) = .ok path := by
  refine ⟨h.exists_written, fun s hs => parse_eq_ok.mpr ?_⟩
  rw [String.toList_ofList, hs.isSolid.trim]
  exact hs.mono fun st hst => st.carries_written (h.predicates st hst)

theorem parse_written_hidden :
    Path.Expressible
      ⟨false, [⟨.child, .name "node", [.all [.equals "a" "] and ', =)", .present "b"]]⟩]⟩ ∧
    Path.Spelled .written
      ⟨false, [⟨.child, .name "node", [.all [.equals "a" "] and ', =)", .present "b"]]⟩]⟩
      "node[@a=\"] and ', =)\" and @b]".toList ∧
    parse "node[@a=\"] and ', =)\" and @b]" = .ok
      ⟨false, [⟨.child, .name "node", [.all [.equals "a" "] and ', =)", .present "b"]]⟩]⟩ := by
  have hname : Reader.IsName "node".toList := ⟨by decide, by decide, by decide⟩
  have hkeys : IsRun "a".toList ∧ IsRun "b".toList := by decide
  have hvalue : ∀ value ∈ (Condition.equals "a" "] and ', =)").literal?, '"' ∉ value.toList := by
    rintro value ⟨⟩
    decide +kernel
  have hpath : Path.Expressible
      ⟨false, [⟨.child, .name "node", [.all [.equals "a" "] and ', =)", .present "b"]]⟩]⟩ := by
    refine ⟨nofun, fun _ st hst => ?_, List.forall_mem_singleton.mpr hname,
      List.forall_mem_singleton.mpr (List.forall_mem_singleton.mpr ⟨nofun, ?_⟩)⟩
    · obtain rfl := Option.some.inj hst
      rfl
    · exact List.forall_mem_cons.mpr ⟨⟨hkeys.1, fun value h => ⟨'"', Or.inr rfl, hvalue value h⟩⟩,
        List.forall_mem_singleton.mpr ⟨hkeys.2, nofun⟩⟩
  have hwritten : Path.Spelled .written
      ⟨false, [⟨.child, .name "node", [.all [.equals "a" "] and ', =)", .present "b"]]⟩]⟩
      "node[@a=\"] and ', =)\" and @b]".toList := by
    have htext : "node[@a=\"] and ', =)\" and @b]".toList = ("node".toList ++
        '[' :: (conjunction.intercalate [Condition.text '"' (.equals "a" "] and ', =)"),
          Condition.text '"' (.present "b")] ++ ']' :: [])) ++ [] := by decide +kernel
    rw [htext]
    refine .relative rfl ⟨_, _, rfl, ⟨rfl, hname, trivial⟩, .cons ⟨_, rfl, ?_⟩ .nil⟩ .nil
    exact .cons ⟨hkeys.1, '"', Or.inr rfl, hvalue, rfl⟩
      (.cons ⟨hkeys.2, '"', Or.inr rfl, nofun, rfl⟩ .nil)
  have hread := (parse_written hpath).2 _ hwritten
  rw [String.ofList_toList] at hread
  exact ⟨hpath, hwritten, hread⟩

end Replay.XPath
