import Replay.Proofs.XPath.Quoting
set_option autoImplicit false

namespace Replay.XPath

namespace Words

variable {w : Words} {key value : String} {s : List Char}

theorem Arguments.at_mem (h : w.Arguments key value s) : '@' ∈ s := by
  obtain ⟨front, back, rfl, -, hfront, -⟩ := h
  have hmem : '@' ∈ front := Text.mem_of_mem_trim (by simp [hfront])
  simp [hmem]

end Words

theorem Condition.Spelled.at_mem {w : Words} {c : Condition} {s : List Char}
    (h : c.Spelled w s) : '@' ∈ s := by
  cases c with
  | present key =>
    obtain ⟨rest, rfl, -⟩ := h
    exact List.mem_cons_self
  | equals key value =>
    obtain ⟨front, back, rfl, -⟩ := h
    exact List.mem_cons_self
  | contains key value | startsWith key value =>
    obtain ⟨inner, rfl, hinner⟩ := h
    have hmem := hinner.at_mem
    simp [hmem]

theorem Conjuncts.ne_nil {parts : List (List Char)} {s : List Char} (h : Conjuncts parts s) :
    parts ≠ [] := by
  cases h <;> nofun

theorem Conjuncts.subset {parts : List (List Char)} {s : List Char} (h : Conjuncts parts s) :
    ∀ part ∈ parts, part ⊆ s := by
  induction h with
  | last => simp
  | cons _ _ ih =>
    rintro q (_ | ⟨_, hq⟩)
    · simp
    · exact List.Subset.trans (ih q hq) (by simp)

/-- Conditions name an attribute, which positions and `last()` do not. -/
theorem Conjuncts.at_mem {w : Words} {conditions : List Condition} {parts : List (List Char)}
    {s : List Char} (h : Conjuncts parts s)
    (hparts : List.Forall₂ (fun c part => c.Spelled w (Text.trim part)) conditions parts) :
    '@' ∈ s := by
  cases hparts with
  | nil => exact absurd rfl h.ne_nil
  | cons hc _ => exact h.subset _ List.mem_cons_self (Text.mem_of_mem_trim hc.at_mem)

theorem Predicate.spelled_position {w : Words} {n : Nat} (hpos : 0 < n) (hn : n < UInt64.size) :
    (Predicate.position n).Spelled w (Nat.toDigits 10 n) := by
  have hblank (c : Char) (hc : c ∈ Nat.toDigits 10 n) : Text.isBlank c = false :=
    Text.isBlank_of_isDigit (Text.isDigit_of_mem_toDigits hc)
  exact ⟨hpos, hn, _, Or.inl (Text.trim_of_all hblank),
    Text.readNat?_eq_some.mp (Text.readNat?_toDigits n)⟩

namespace Reader

variable {s : List Char}

theorem unquote?_eq_some {value : List Char} :
    unquote? s = some value ↔ Words.any.Quoted value s := by
  unfold unquote? Words.Quoted
  split
  · next q body htrim =>
    rw [htrim]
    constructor
    · intro h
      split at h
      · next hq =>
        obtain ⟨inner, rfl⟩ := List.getLast?_eq_some_iff.mp hq.2
        obtain rfl := Option.some.inj h
        exact ⟨q, hq.1, trivial, by rw [List.dropLast_concat]⟩
      · cases h
    · rintro ⟨quote, hq, -, heq⟩
      obtain ⟨rfl, rfl⟩ := List.cons.inj heq
      rw [if_pos ⟨hq, List.getLast?_concat⟩, List.dropLast_concat]
  · next htrim => simp [htrim]

theorem arguments?_eq_some {key value : String} :
    arguments? s = some (key, value) ↔ Words.any.Arguments key value s := by
  unfold arguments?
  simp only [Option.bind_eq_bind, Option.bind_eq_some_iff, Prod.exists, Text.splitOnce?_eq_some,
    Text.stripStart?_eq_some, unquote?_eq_some, Option.pure_def, Option.some.injEq, Prod.mk.injEq]
  constructor
  · rintro ⟨front, back, ⟨hs, hcomma⟩, k, hfront, v, hback, rfl, rfl⟩
    exact ⟨front, back, hs, hcomma, by simpa using hfront, trivial, by simpa using hback⟩
  · rintro ⟨front, back, hs, hcomma, hfront, -, hback⟩
    exact ⟨front, back, ⟨hs, hcomma⟩, key.toList, hfront, value.toList, hback,
      String.ofList_toList, String.ofList_toList⟩

theorem callOf?_eq_some {name : String} {inner : List Char} :
    callOf? name s = some inner ↔ s = (name ++ "(").toList ++ (inner ++ [')']) := by
  simp [callOf?, Option.bind_eq_some_iff, Text.stripStart?_eq_some, Text.stripEnd?_eq_some]

theorem comparison?_eq_some {c : Condition} : comparison? s = some c ↔
    ((∃ key, c = .present key) ∨ ∃ key value, c = .equals key value) ∧ c.Spelled .any s := by
  unfold comparison?
  simp only [Option.bind_eq_bind, Option.bind_eq_some_iff, Text.stripStart?_eq_some]
  constructor
  · rintro ⟨rest, rfl, h⟩
    split at h
    · next hcut =>
      obtain rfl := Option.some.inj h
      exact ⟨Or.inl ⟨_, rfl⟩, rest, rfl, Text.splitOnce?_eq_none.mp hcut, by simp, trivial⟩
    · next front back hcut =>
      obtain ⟨value, hvalue, heq⟩ := Option.bind_eq_some_iff.mp h
      obtain rfl := Option.some.inj heq
      obtain ⟨rfl, hfront⟩ := Text.splitOnce?_eq_some.mp hcut
      exact ⟨Or.inr ⟨_, _, rfl⟩, front, back, rfl, hfront, by simp, trivial,
        by simpa using unquote?_eq_some.mp hvalue⟩
  · rintro ⟨⟨key, rfl⟩ | ⟨key, value, rfl⟩, h⟩
    · obtain ⟨rest, rfl, hrest, htrim, -⟩ := h
      refine ⟨rest, rfl, ?_⟩
      rw [Text.splitOnce?_eq_none.mpr hrest, htrim]
      simp
    · obtain ⟨front, back, rfl, hfront, htrim, -, hback⟩ := h
      refine ⟨front ++ '=' :: back, rfl, ?_⟩
      rw [Text.splitOnce?_eq_some.mpr ⟨rfl, hfront⟩]
      have hvalue : unquote? back = some value.toList := unquote?_eq_some.mpr hback
      simp [hvalue, htrim]

theorem callOf?_of_at {name : String} {rest : List Char}
    (hname : (name ++ "(").toList.head? ≠ some '@') (hne : (name ++ "(").toList ≠ []) :
    callOf? name ('@' :: rest) = none := by
  refine Option.eq_none_iff_forall_ne_some.mpr fun inner h => hname ?_
  have hhead := congrArg List.head? (callOf?_eq_some.mp h)
  rw [List.head?_append_of_ne_nil _ hne] at hhead
  exact hhead.symm

theorem condition?_eq_some {c : Condition} : condition? s = some c ↔ c.Spelled .any s := by
  unfold condition?
  constructor
  · intro h
    split at h
    · next inner hinner =>
      obtain ⟨⟨key, value⟩, hargs, rfl⟩ := Option.map_eq_some_iff.mp h
      exact ⟨inner, callOf?_eq_some.mp hinner, arguments?_eq_some.mp hargs⟩
    · next inner hinner _ =>
      obtain ⟨⟨key, value⟩, hargs, rfl⟩ := Option.map_eq_some_iff.mp h
      exact ⟨inner, callOf?_eq_some.mp hinner, arguments?_eq_some.mp hargs⟩
    · exact (comparison?_eq_some.mp h).2
  · intro h
    cases c with
    | present key =>
      have hread := comparison?_eq_some.mpr ⟨Or.inl ⟨_, rfl⟩, h⟩
      obtain ⟨rest, rfl, -⟩ := h
      rwa [callOf?_of_at (by decide) (by decide), callOf?_of_at (by decide) (by decide)]
    | equals key value =>
      have hread := comparison?_eq_some.mpr ⟨Or.inr ⟨_, _, rfl⟩, h⟩
      obtain ⟨front, back, rfl, -⟩ := h
      rwa [callOf?_of_at (by decide) (by decide), callOf?_of_at (by decide) (by decide)]
    | contains key value =>
      obtain ⟨inner, hs, hargs⟩ := h
      have hcall : callOf? "contains" s = some inner := callOf?_eq_some.mpr hs
      simp only [hcall, arguments?_eq_some.mpr hargs, Option.map_some]
    | startsWith key value =>
      obtain ⟨inner, hs, hargs⟩ := h
      have hother : callOf? "contains" s = none := by
        rw [hs]
        rfl
      have hcall : callOf? "starts-with" s = some inner := callOf?_eq_some.mpr hs
      simp only [hother, hcall, arguments?_eq_some.mpr hargs, Option.map_some]

theorem condition_eq_ok {c : Condition} : condition s = .ok c ↔ c.Spelled .any s := by
  rw [← condition?_eq_some]
  unfold condition
  split <;> simp_all

theorem sealed_of_digits {digits : List Char} (h : ∀ c ∈ digits, c.isDigit) :
    Sealed [']'] [] digits := by
  refine .of_bare fun c hc => ⟨?_, ?_⟩
  · rintro (rfl | rfl) <;> cases h _ hc
  · rintro rfl
    cases h _ hc

theorem sealed_of_spelled {p : Predicate} (h : p.Spelled .any s) : Sealed [']'] [] s := by
  cases p with
  | last =>
    refine sealed_trim.mp ?_
    rw [show Text.trim s = "last()".toList from h]
    exact .of_bare (by decide)
  | position n =>
    obtain ⟨-, -, digits, htrim, hdigits⟩ := h
    refine sealed_trim.mp ?_
    obtain htrim | htrim := htrim
    · exact htrim ▸ sealed_of_digits hdigits.2.1
    · exact htrim ▸ .bare (by decide) (by simp) (sealed_of_digits hdigits.2.1)
  | all conditions => exact h.1

theorem readUnsigned?_of_at (h : '@' ∈ s) : Text.readUnsigned? s = none := by
  refine Option.eq_none_iff_forall_ne_some.mpr fun n hn => ?_
  obtain ⟨digits, rfl | rfl, -, hdigits, -⟩ := Text.readUnsigned?_eq_some.mp hn
  · cases hdigits '@' h
  · obtain h | h := List.mem_cons.mp h
    · cases h
    · cases hdigits '@' h

theorem mapM_condition_eq_ok {conditions : List Condition} (hseal : Sealed [']'] [] s) :
    (splitAnd none [] (Text.trim s)).mapM condition = .ok conditions ↔
      ∃ parts, Conjuncts parts (Text.trim s) ∧
        List.Forall₂ (fun c part => c.Spelled .any (Text.trim part)) conditions parts := by
  have hread {parts : List (List Char)} (hparts : Conjuncts parts (Text.trim s)) :
      (splitAnd none [] (Text.trim s)).mapM condition = .ok conditions ↔
        List.Forall₂ (fun c part => c.Spelled .any (Text.trim part)) conditions parts := by
    rw [splitAnd_of_conjuncts hparts, mapM_eq_ok, List.forall₂_map_right_iff]
    simp only [condition_eq_ok]
  constructor
  · intro h
    obtain ⟨parts, hparts⟩ := exists_conjuncts (sealed_trim.mpr hseal)
    exact ⟨parts, hparts, (hread hparts).mp h⟩
  · rintro ⟨parts, hparts, h⟩
    exact (hread hparts).mpr h

theorem predicateBody_eq_ok {p : Predicate} (hseal : Sealed [']'] [] s) :
    predicateBody (Text.trim s) = .ok p ↔ p.Spelled .any s := by
  unfold predicateBody
  constructor
  · intro h
    split at h
    · next hlast =>
      cases h
      exact hlast
    · split at h
      · cases h
      · next n hn hnumber =>
        cases h
        obtain ⟨hread, hsize⟩ := Option.filter_eq_some_iff.mp hnumber
        exact ⟨Nat.pos_of_ne_zero hn, by simpa using hsize, Text.readUnsigned?_eq_some.mp hread⟩
      · obtain ⟨conditions, hread, rfl⟩ := map_eq_ok.mp h
        exact ⟨hseal, (mapM_condition_eq_ok hseal).mp hread⟩
  · intro h
    cases p with
    | last => exact if_pos h
    | position n =>
      obtain ⟨hpos, hsize, hread⟩ := h
      have hnumber := Text.readUnsigned?_eq_some.mpr hread
      rw [if_neg ?_, hnumber, Option.filter_some, if_pos (by simpa using hsize)]
      · cases n with
        | zero => cases hpos
        | succ n => rfl
      · intro hlast
        rw [hlast] at hnumber
        cases hnumber
    | all conditions =>
      obtain ⟨-, parts, hparts, hconditions⟩ := h
      have hat := hparts.at_mem hconditions
      have hlast : Text.trim s ≠ "last()".toList := by
        intro hlast
        rw [hlast] at hat
        exact absurd hat (by decide)
      rw [if_neg hlast, readUnsigned?_of_at hat]
      exact map_eq_ok.mpr
        ⟨conditions, (mapM_condition_eq_ok hseal).mpr ⟨parts, hparts, hconditions⟩, rfl⟩

theorem predicate_eq_ok {p : Predicate} {rest : List Char} : predicate s = .ok (p, rest) ↔
    ∃ body, s = body ++ ']' :: rest ∧ p.Spelled .any body := by
  unfold predicate
  constructor
  · intro h
    split at h
    · cases h
    · next body after hcut =>
      obtain ⟨q, hq, heq⟩ := map_eq_ok.mp h
      obtain ⟨rfl, rfl⟩ := Prod.mk.inj heq
      obtain ⟨rfl, hseal⟩ := splitPredicate?_eq_some.mp hcut
      exact ⟨body, rfl, (predicateBody_eq_ok hseal).mp hq⟩
  · rintro ⟨body, rfl, h⟩
    have hseal := sealed_of_spelled h
    simp only [splitPredicate?_of_sealed hseal, (predicateBody_eq_ok hseal).mpr h, Except.map]

end Reader

end Replay.XPath
