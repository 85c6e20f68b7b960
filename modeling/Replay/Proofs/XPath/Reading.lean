import Replay.Proofs.Text.Reading
import Replay.XPath.Reader
set_option autoImplicit false

namespace Replay.XPath.Reader

structure IsName (n : List Char) : Prop where
  ne_nil : n ≠ []
  all_chars : n.all isNameChar
  no_dot : n.head? ≠ some '.'

theorem IsName.chars {n : List Char} (h : IsName n) : ∀ c ∈ n, isNameChar c :=
  List.all_eq_true.mp h.all_chars

theorem isBlank_of_isNameChar {c : Char} (h : isNameChar c) : Text.isBlank c = false := by
  cases hblank : Text.isBlank c with
  | false => rfl
  | true =>
    have hall : ∀ n ∈ Text.blankCodes, isNameChar (Char.ofNat n) = false := by decide +kernel
    have hcode := hall c.toNat (Text.mem_blankCodes hblank)
    rw [Char.ofNat_toNat, h] at hcode
    cases hcode

theorem name_append {n rest : List Char} (hn : ∀ c ∈ n, isNameChar c)
    (hrest : ∀ c ∈ rest.head?, isNameChar c = false) : name (n ++ rest) = (n, rest) := by
  rw [name, List.takeWhile_append_of_pos hn, List.dropWhile_append_of_pos hn]
  cases rest with
  | nil => simp
  | cons c rest => simp [hrest c rfl]

def EndsTest (rest : List Char) : Prop := ∀ c ∈ rest.head?, c = '[' ∨ c = '/'

theorem EndsTest.isNameChar {rest : List Char} (h : EndsTest rest) :
    ∀ c ∈ rest.head?, isNameChar c = false := by
  intro c hc
  obtain rfl | rfl := h c hc <;> decide

/-- No name in front of a step or predicate is taken for a function. -/
theorem stripStart?_function (word : List Char) (hword : word.all isNameChar)
    {n rest : List Char} (hn : ∀ c ∈ n, isNameChar c) (hrest : EndsTest rest) :
    Text.stripStart? (word ++ ['(', ')']) (n ++ rest) = none := by
  refine Option.eq_none_iff_forall_ne_some.mpr fun after heq => ?_
  rw [Text.stripStart?_eq_some] at heq
  have hread := name_append hn hrest.isNameChar
  rw [heq, List.append_assoc,
    name_append (List.all_eq_true.mp hword) (by rintro c ⟨⟩; decide)] at hread
  obtain ⟨-, rfl⟩ := Prod.mk.inj hread
  have hhead := hrest '(' rfl
  simp at hhead

theorem nameTest_append {n rest : List Char} (hn : IsName n) (hrest : EndsTest rest) :
    nameTest (n ++ rest) = .ok (.name (String.ofList n), rest) := by
  have hcolons : Text.startsWith "::".toList rest = false := by
    cases rest with
    | nil => rfl
    | cons c rest => obtain rfl | rfl := hrest c rfl <;> rfl
  have hne : n.isEmpty = false := by simpa using hn.ne_nil
  simp only [nameTest, name_append hn.chars hrest.isNameChar, hne, hcolons, Bool.false_eq_true,
    ↓reduceIte]

theorem nodeTest_append {n rest : List Char} (hn : IsName n) (hrest : EndsTest rest) :
    nodeTest (n ++ rest) = .ok (.name (String.ofList n), rest) := by
  have htext : Text.stripStart? "text()".toList (n ++ rest) = none :=
    stripStart?_function "text".toList (by decide) hn.chars hrest
  have hnode : Text.stripStart? "node()".toList (n ++ rest) = none :=
    stripStart?_function "node".toList (by decide) hn.chars hrest
  have hname := nameTest_append hn hrest
  obtain ⟨c, n, rfl⟩ := List.exists_cons_of_ne_nil hn.ne_nil
  have hc : isNameChar c := hn.chars c List.mem_cons_self
  have hstar : c ≠ '*' := by
    rintro rfl
    cases hc
  have hat : c ≠ '@' := by
    rintro rfl
    cases hc
  have hdot : c ≠ '.' := fun h => hn.no_dot (by rw [h, List.head?_cons])
  unfold nodeTest
  rw [htext, hnode]
  split
  · next heq => cases heq
  · next heq _ => cases heq
  · next heq _ _ => exact absurd (List.cons.inj heq).1 hstar
  · next heq _ _ => exact absurd (List.cons.inj heq).1 hat
  · next heq _ _ => exact absurd (List.cons.inj heq).1 hdot
  · next heq _ _ => exact absurd (List.cons.inj heq).1 hdot
  · exact hname

theorem predicates_none (fuel : Nat) {rest : List Char} (hrest : rest.head? ≠ some '[') :
    predicates fuel rest = .ok ([], rest) := by
  unfold predicates
  split
  · simp at hrest
  · rfl

def EndsStep (rest : List Char) : Prop := ∀ c ∈ rest.head?, c = '/'

theorem EndsStep.head? {rest : List Char} (h : EndsStep rest) : rest.head? ≠ some '[' := by
  intro heq
  cases h '[' heq

end Replay.XPath.Reader

namespace Replay.XPath

def Step.Counted (st : Step) : Prop := ∀ p ∈ st.predicates, p ≠ .position 0

namespace Reader

theorem counted_predicateBody {body : List Char} {p : Predicate}
    (h : predicateBody body = .ok p) : p ≠ .position 0 := by
  unfold predicateBody at h
  split at h
  · cases h
    nofun
  · split at h
    · cases h
    · next hzero _ =>
      cases h
      rintro ⟨⟩
      exact hzero rfl
    · obtain ⟨conditions, -, rfl⟩ := map_eq_ok.mp h
      nofun

theorem counted_predicate {s rest : List Char} {p : Predicate}
    (h : predicate s = .ok (p, rest)) : p ≠ .position 0 := by
  unfold predicate at h
  split at h
  · cases h
  · obtain ⟨q, hq, heq⟩ := map_eq_ok.mp h
    obtain rfl : q = p := (Prod.mk.inj heq).1
    exact counted_predicateBody hq

theorem counted_predicates {fuel : Nat} {s rest : List Char} {ps : List Predicate}
    (h : predicates fuel s = .ok (ps, rest)) : ∀ p ∈ ps, p ≠ .position 0 := by
  induction fuel generalizing s ps rest with
  | zero =>
    unfold predicates at h
    cases h
    nofun
  | succ fuel ih =>
    unfold predicates at h
    split at h
    · next after heq =>
      obtain rfl := Nat.succ.inj heq
      obtain ⟨⟨p, after'⟩, hp, h⟩ := bind_eq_ok.mp h
      obtain ⟨⟨ps', rest'⟩, hps, hok⟩ := bind_eq_ok.mp h
      obtain ⟨rfl, -⟩ := Prod.mk.inj (Except.ok.inj hok)
      rintro q (_ | ⟨_, hq⟩)
      · exact counted_predicate hp
      · exact ih hps q hq
    · cases h
      nofun

theorem counted_step {fuel : Nat} {first : Bool} {s rest : List Char} {st : Step}
    (h : step fuel first s = .ok (st, rest)) : st.Counted := by
  obtain ⟨⟨axis, s₁⟩, -, h⟩ := bind_eq_ok.mp h
  dsimp only at h
  split at h
  · cases h
  obtain ⟨⟨test, s₂⟩, -, h⟩ := bind_eq_ok.mp h
  obtain ⟨⟨ps, s₃⟩, hps, hok⟩ := bind_eq_ok.mp h
  obtain ⟨rfl, -⟩ := Prod.mk.inj (Except.ok.inj hok)
  exact counted_predicates hps

theorem counted_steps {fuel : Nat} {first : Bool} {s : List Char} {sts : List Step}
    (h : steps fuel first s = .ok sts) : ∀ st ∈ sts, st.Counted := by
  induction fuel generalizing first s sts with
  | zero =>
    cases h
    nofun
  | succ fuel ih =>
    obtain ⟨⟨st, rest⟩, hst, h⟩ := bind_eq_ok.mp h
    dsimp only at h
    split at h
    · obtain rfl := Except.ok.inj h
      simpa using counted_step hst
    · obtain ⟨sts', hsts, hok⟩ := bind_eq_ok.mp h
      obtain rfl := Except.ok.inj hok
      rintro q (_ | ⟨_, hq⟩)
      · exact counted_step hst
      · exact ih hsts q hq

theorem counted_parse {text : String} {path : Path} (h : parse text = .ok path) :
    ∀ st ∈ path.steps, st.Counted := by
  unfold parse parseChars at h
  dsimp only at h
  split at h
  · cases h
  · split at h
    · next sts hsts =>
      cases h
      exact counted_steps hsts
    · cases h

end Reader

end Replay.XPath
