import Replay.Proofs.XPath.Grammar
set_option autoImplicit false

/-!
The scanners against quotes. The bracket that ends a predicate is the first one outside quotes
(`splitPredicate?_eq_some`); the conjunctions outside quotes, and only they, cut a body
(`splitAnd_of_conjuncts`), and every text with its quotes in pairs has such parts
(`exists_conjuncts`).
-/

namespace Replay.XPath

theorem IsQuote.isBlank {c : Char} (h : IsQuote c) : Text.isBlank c = false := by
  obtain rfl | rfl := h <;> rfl

def Bare (x : Char) (s : List Char) : Prop := ∀ c ∈ s, ¬ IsQuote c ∧ c ≠ x

instance (x : Char) (s : List Char) : Decidable (Bare x s) := List.decidableBAll _ s

namespace Bare

variable {x : Char} {a b : List Char}

theorem append (ha : Bare x a) (hb : Bare x b) : Bare x (a ++ b) :=
  List.forall_mem_append.mpr ⟨ha, hb⟩

theorem not_isQuote (h : Bare x a) : ∀ c ∈ a, ¬ IsQuote c := fun c hc => (h c hc).1

theorem of_blank (hx : Text.isBlank x = false) (h : ∀ c ∈ a, Text.isBlank c) : Bare x a := by
  refine fun c hc => ⟨fun hquote => ?_, ?_⟩
  · exact absurd (h c hc) (by simp [hquote.isBlank])
  · rintro rfl
    exact absurd (h c hc) (by simp [hx])

end Bare

namespace Sealed

variable {first : Char} {more tail : List Char}

theorem append_of_bare {p s : List Char} (hp : Bare first p)
    (hs : Sealed (first :: more) tail s) : Sealed (first :: more) tail (p ++ s) := by
  induction p with
  | nil => exact hs
  | cons c p ih =>
    obtain ⟨⟨hc, hfirst⟩, hp⟩ := List.forall_mem_cons.mp hp
    refine .bare hc (fun hstop => hfirst ?_) (ih hp)
    exact (List.cons_prefix_cons.mp hstop).1.symm

theorem of_bare {s : List Char} (h : Bare first s) : Sealed (first :: more) tail s := by
  have happend := append_of_bare h (.nil : Sealed (first :: more) tail [])
  rwa [List.append_nil] at happend

theorem append {stop a b : List Char} (ha : Sealed stop (b ++ tail) a) (hb : Sealed stop tail b) :
    Sealed stop tail (a ++ b) := by
  induction ha with
  | nil => exact hb
  | bare hc hstop _ ih => exact .bare hc (by simpa using hstop) ih
  | quoted hq hv _ ih =>
    rw [List.cons_append, List.append_assoc, List.cons_append]
    exact .quoted hq hv ih

theorem of_singleton {c : Char} {other s : List Char} (h : Sealed [c] tail s) :
    Sealed [c] other s := by
  induction h with
  | nil => exact .nil
  | bare hc hstop _ ih => exact .bare hc (by simpa using hstop) ih
  | quoted hq hv _ ih => exact .quoted hq hv ih

theorem of_append_left {stop p s : List Char} (hp : ∀ c ∈ p, ¬ IsQuote c)
    (h : Sealed stop tail (p ++ s)) : Sealed stop tail s := by
  induction p with
  | nil => exact h
  | cons c p ih =>
    obtain ⟨hc, hp⟩ := List.forall_mem_cons.mp hp
    rw [List.cons_append] at h
    generalize htext : c :: (p ++ s) = text at h
    cases h with
    | nil => cases htext
    | bare _ _ h =>
      obtain ⟨rfl, rfl⟩ := List.cons.inj htext
      exact ih hp h
    | quoted hq _ _ => exact absurd hq ((List.cons.inj htext).1 ▸ hc)

theorem of_append_right {c : Char} {s p : List Char} (hp : ∀ x ∈ p, ¬ IsQuote x)
    (h : Sealed [c] tail (s ++ p)) : Sealed [c] tail s := by
  generalize htext : s ++ p = text at h
  induction h generalizing s with
  | nil =>
    obtain ⟨rfl, -⟩ := List.append_eq_nil_iff.mp htext
    exact .nil
  | @bare x rest hx hstop h ih =>
    cases s with
    | nil => exact .nil
    | cons y s =>
      obtain ⟨rfl, hrest⟩ := List.cons.inj htext
      exact .bare hx (by simpa using hstop) (ih hrest)
  | @quoted q v rest hq hv h ih =>
    cases s with
    | nil => exact absurd hq (hp q (by simp [show p = _ from htext]))
    | cons y s =>
      obtain ⟨rfl, hrest⟩ := List.cons.inj htext
      -- The closing quote is not in `p`, and so in what stands before it.
      obtain ⟨front, rfl, hback⟩ | ⟨front, rfl, hback⟩ := List.append_eq_append_iff.mp hrest
      · exact absurd hq (hp y (by simp [hback]))
      · cases front with
        | nil => exact absurd hq (hp y (by simp [← show _ = p from hback]))
        | cons z front =>
          obtain ⟨rfl, hafter⟩ := List.cons.inj hback
          exact .quoted hq hv (ih hafter.symm)

/-- Behind a text that `stop` ends, no further character lets it begin earlier. -/
theorem extend {stop s : List Char} (h : Sealed stop stop s) (more : List Char) :
    Sealed stop (stop ++ more) s := by
  induction h with
  | nil => exact .nil
  | @bare c s hc hstop _ ih =>
    refine .bare hc (fun hlonger => hstop ?_) ih
    have hprefix : c :: (s ++ stop) <+: c :: (s ++ (stop ++ more)) := ⟨more, by simp⟩
    exact List.prefix_of_prefix_length_le hlonger hprefix (by simp; omega)
  | quoted hq hv _ ih => exact .quoted hq hv ih

end Sealed

theorem sealed_trim {s : List Char} : Sealed [']'] [] (Text.trim s) ↔ Sealed [']'] [] s := by
  obtain ⟨front, back, hs, hfront, hback⟩ := Text.padded_trim s
  have hfront : Bare ']' front := .of_blank rfl hfront
  have hback : Bare ']' back := .of_blank rfl hback
  constructor
  · intro h
    rw [hs, List.append_assoc]
    exact .append_of_bare hfront (h.of_singleton.append (.of_bare hback))
  · intro h
    rw [hs] at h
    exact (h.of_append_right hback.not_isQuote).of_append_left hfront.not_isQuote

namespace Reader

section Bracket

variable {c q : Char} {s : List Char}

theorem splitPredicate?_bare (hc : ¬ IsQuote c) (hbracket : c ≠ ']') :
    splitPredicate? none (c :: s) =
      (splitPredicate? none s).map fun (body, rest) => (c :: body, rest) := by
  simp [splitPredicate?, hbracket, not_or.mp hc]

theorem splitPredicate?_opening (hq : IsQuote q) : splitPredicate? none (q :: s) =
    (splitPredicate? (some q) s).map fun (body, rest) => (q :: body, rest) := by
  have hbracket : q ≠ ']' := by
    rintro rfl
    exact absurd hq (by decide)
  unfold IsQuote at hq
  simp [splitPredicate?, hbracket, hq]

theorem splitPredicate?_within (q : Char) (c : Char) : splitPredicate? (some q) (c :: s) =
    (splitPredicate? (if c = q then none else some q) s).map
      fun (body, rest) => (c :: body, rest) := by
  simp [splitPredicate?]

theorem splitPredicate?_quoted {v : List Char} (hv : q ∉ v) :
    splitPredicate? (some q) (v ++ q :: s) =
      (splitPredicate? none s).map fun (body, rest) => (v ++ q :: body, rest) := by
  induction v with
  | nil => simp [splitPredicate?_within]
  | cons c v ih =>
    obtain ⟨hc, hv⟩ := not_or.mp (mt List.mem_cons.mpr hv)
    rw [List.cons_append, splitPredicate?_within, if_neg (Ne.symm hc), ih hv, Option.map_map]
    rfl

end Bracket

theorem splitPredicate?_of_sealed {body : List Char} (h : Sealed [']'] [] body)
    (rest : List Char) : splitPredicate? none (body ++ ']' :: rest) = some (body, rest) := by
  induction h with
  | nil => simp [splitPredicate?]
  | @bare c s hc hstop _ ih =>
    have hbracket : c ≠ ']' := by
      rintro rfl
      exact hstop (by simp)
    rw [List.cons_append, splitPredicate?_bare hc hbracket, ih]
    rfl
  | @quoted q v s hq hv _ ih =>
    rw [List.cons_append, List.append_assoc, List.cons_append, splitPredicate?_opening hq,
      splitPredicate?_quoted hv, ih]
    rfl

/-- The rest of a sealed text behind an opening quote, or all of it. -/
def SealedFrom : Option Char → List Char → Prop
  | none, s => Sealed [']'] [] s
  | some q, s => ∃ v rest, q ∉ v ∧ s = v ++ q :: rest ∧ Sealed [']'] [] rest

theorem sealedFrom_of_splitPredicate? {quote : Option Char} {s body rest : List Char}
    (h : splitPredicate? quote s = some (body, rest)) :
    s = body ++ ']' :: rest ∧ SealedFrom quote body := by
  induction s generalizing quote body with
  | nil => cases h
  | cons c s ih =>
    cases quote with
    | none =>
      by_cases hbracket : c = ']'
      · subst hbracket
        simp only [splitPredicate?, Option.isNone_none, and_self, ↓reduceIte, Option.some.injEq,
          Prod.mk.injEq] at h
        obtain ⟨rfl, rfl⟩ := h
        exact ⟨rfl, .nil⟩
      · by_cases hc : IsQuote c
        · rw [splitPredicate?_opening hc] at h
          obtain ⟨⟨inner, after⟩, hinner, heq⟩ := Option.map_eq_some_iff.mp h
          obtain ⟨rfl, rfl⟩ := Prod.mk.inj heq
          obtain ⟨rfl, v, w, hv, rfl, hw⟩ := ih hinner
          exact ⟨rfl, .quoted hc hv hw⟩
        · rw [splitPredicate?_bare hc hbracket] at h
          obtain ⟨⟨inner, after⟩, hinner, heq⟩ := Option.map_eq_some_iff.mp h
          obtain ⟨rfl, rfl⟩ := Prod.mk.inj heq
          obtain ⟨rfl, hs⟩ := ih hinner
          exact ⟨rfl, .bare hc (by simpa using Ne.symm hbracket) hs⟩
    | some q =>
      rw [splitPredicate?_within] at h
      obtain ⟨⟨inner, after⟩, hinner, heq⟩ := Option.map_eq_some_iff.mp h
      obtain ⟨rfl, rfl⟩ := Prod.mk.inj heq
      obtain ⟨rfl, hs⟩ := ih hinner
      refine ⟨rfl, ?_⟩
      by_cases hc : c = q
      · rw [if_pos hc] at hs
        exact ⟨[], inner, List.not_mem_nil, by rw [hc, List.nil_append], hs⟩
      · rw [if_neg hc] at hs
        obtain ⟨v, w, hv, rfl, hw⟩ := hs
        exact ⟨c :: v, w, by simp [hv, Ne.symm hc], rfl, hw⟩

/-- A predicate ends at the first bracket outside quotes. -/
theorem splitPredicate?_eq_some {s body rest : List Char} :
    splitPredicate? none s = some (body, rest) ↔
      s = body ++ ']' :: rest ∧ Sealed [']'] [] body := by
  constructor
  · exact sealedFrom_of_splitPredicate?
  · rintro ⟨rfl, h⟩
    exact splitPredicate?_of_sealed h rest

section Conjunction

variable {c q : Char} {s tail : List Char}

theorem splitAnd_conjunction (current s : List Char) :
    splitAnd none current (conjunction ++ s) = Text.trim current.reverse :: splitAnd none [] s := by
  simp [conjunction, splitAnd]

theorem splitAnd_outside (hstop : ¬ conjunction <+: c :: s) (current : List Char) :
    splitAnd none current (c :: s) =
      splitAnd (if IsQuote c then some c else none) (c :: current) s := by
  rw [splitAnd]
  · rfl
  · rintro rest rfl rfl
    exact hstop ⟨rest, rfl⟩

theorem splitAnd_within {v : List Char} (hv : q ∉ v) (current : List Char) :
    splitAnd (some q) current (v ++ q :: s) = splitAnd none (q :: (v.reverse ++ current)) s := by
  induction v generalizing current with
  | nil => simp [splitAnd]
  | cons c v ih =>
    obtain ⟨hc, hv⟩ := not_or.mp (mt List.mem_cons.mpr hv)
    rw [List.cons_append, splitAnd, if_neg (Ne.symm hc), ih hv]
    simp

theorem not_conjunction_of_isQuote (hq : IsQuote q) : ¬ conjunction <+: q :: s := by
  intro h
  obtain rfl : ' ' = q := (List.cons_prefix_cons.mp h).1
  exact absurd hq (by decide)

theorem splitAnd_append (h : Sealed conjunction tail s) (current : List Char) :
    splitAnd none current (s ++ tail) = splitAnd none (s.reverse ++ current) tail := by
  induction h generalizing current with
  | nil => rfl
  | bare hc hstop _ ih =>
    rw [List.cons_append, splitAnd_outside hstop, if_neg hc, ih]
    simp
  | quoted hq hv _ ih =>
    rw [List.cons_append, List.append_assoc, List.cons_append,
      splitAnd_outside (not_conjunction_of_isQuote hq), if_pos hq, splitAnd_within hv, ih]
    simp

theorem splitAnd_of_conjuncts {parts : List (List Char)} (h : Conjuncts parts s) :
    splitAnd none [] s = parts.map Text.trim := by
  induction h with
  | @last s h =>
    have happend := splitAnd_append h []
    simpa [splitAnd] using happend
  | @cons part parts s h _ ih =>
    rw [splitAnd_append (h.extend s), splitAnd_conjunction, ih]
    simp

end Conjunction

end Reader

namespace Conjuncts

variable {s : List Char} {parts : List (List Char)}

theorem exists_bare {c : Char} (hc : ¬ IsQuote c) (hstop : ¬ conjunction <+: c :: s)
    (h : Conjuncts parts s) : ∃ parts, Conjuncts parts (c :: s) := by
  cases h with
  | last h => exact ⟨_, .last (.bare hc (by simpa using hstop) h)⟩
  | @cons part parts s h hs =>
    refine ⟨_, .cons (.bare hc (fun hpart => hstop ?_) h) hs⟩
    exact hpart.trans ⟨s, by simp⟩

theorem exists_quoted {q : Char} {v : List Char} (hq : IsQuote q) (hv : q ∉ v)
    (h : Conjuncts parts s) : ∃ parts, Conjuncts parts (q :: (v ++ q :: s)) := by
  cases h with
  | last h => exact ⟨_, .last (.quoted hq hv h)⟩
  | @cons part parts s h hs =>
    have hcut := Conjuncts.cons (.quoted hq hv h) hs
    exact ⟨_, by simpa using hcut⟩

end Conjuncts

theorem bare_conjunction : Bare ']' conjunction := by decide

theorem exists_conjuncts {s : List Char} (h : Sealed [']'] [] s) : ∃ parts, Conjuncts parts s := by
  -- Behind a conjunction the rest is no premise of `h`, so the induction is on the length.
  induction hlength : s.length using Nat.strong_induction_on generalizing s with
  | _ n ih =>
    subst hlength
    cases h with
    | nil => exact ⟨_, .last .nil⟩
    | @bare c s hc hbracket h =>
      by_cases hstop : conjunction <+: c :: s
      · obtain ⟨rest, hrest⟩ := hstop
        have hseal := Sealed.bare hc hbracket h
        rw [← hrest] at hseal ⊢
        have hless : rest.length < (conjunction ++ rest).length := by
          simp [conjunction]
          omega
        obtain ⟨parts, hparts⟩ := ih _ (by rwa [← hrest])
          (hseal.of_append_left bare_conjunction.not_isQuote) rfl
        exact ⟨_, .cons .nil hparts⟩
      · obtain ⟨parts, hparts⟩ := ih _ (Nat.lt_succ_self _) h rfl
        exact hparts.exists_bare hc hstop
    | @quoted q v s hq hv h =>
      obtain ⟨parts, hparts⟩ := ih _ (by simp; omega) h rfl
      exact hparts.exists_quoted hq hv

end Replay.XPath
