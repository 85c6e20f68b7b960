import Replay.Proofs.XPath.Acceptance
set_option autoImplicit false

namespace Replay.XPath

def Predicate.conditions : Predicate → List Condition
  | .all conditions => conditions
  | .position _ | .last => []

structure Condition.Plain (c : Condition) : Prop where
  key : IsRun c.key.toList
  literal : ∀ value ∈ c.literal?, ∀ quote ∈ value.toList, ¬ IsQuote quote

structure Step.Plain (st : Step) : Prop where
  name : ∀ n, st.test = .name n → ¬ "::".toList <:+: n.toList
  conditions : ∀ p ∈ st.predicates, ∀ c ∈ p.conditions, c.Plain

def Path.Plain (path : Path) : Prop := ∀ st ∈ path.steps, st.Plain

variable {w w' : Words} {s : List Char}

theorem Words.Quoted.mono {value : List Char} (h : w.Quoted value s)
    (hvalue : ∀ quote, IsQuote quote → w.literal quote value → w'.literal quote value) :
    w'.Quoted value s := by
  obtain ⟨quote, hquote, hliteral, htrim⟩ := h
  exact ⟨quote, hquote, hvalue quote hquote hliteral, htrim⟩

theorem Words.Arguments.mono {key value : String} (h : w.Arguments key value s)
    (hkey : w.key key.toList → w'.key key.toList)
    (hvalue : ∀ quote, IsQuote quote → w.literal quote value.toList →
      w'.literal quote value.toList) : w'.Arguments key value s := by
  obtain ⟨front, back, rfl, hcomma, hfront, hword, hback⟩ := h
  exact ⟨front, back, rfl, hcomma, hfront, hkey hword, hback.mono hvalue⟩

theorem Condition.Spelled.mono {c : Condition} (h : c.Spelled w s)
    (hkey : w.key c.key.toList → w'.key c.key.toList)
    (hvalue : ∀ value ∈ c.literal?, ∀ quote, IsQuote quote → w.literal quote value.toList →
      w'.literal quote value.toList) : c.Spelled w' s := by
  cases c with
  | present key =>
    obtain ⟨rest, rfl, hrest, htrim, hword⟩ := h
    exact ⟨rest, rfl, hrest, htrim, hkey hword⟩
  | equals key value =>
    obtain ⟨front, back, rfl, hfront, htrim, hword, hback⟩ := h
    exact ⟨front, back, rfl, hfront, htrim, hkey hword, hback.mono (hvalue value rfl)⟩
  | contains key value | startsWith key value =>
    obtain ⟨inner, rfl, hinner⟩ := h
    exact ⟨inner, rfl, hinner.mono hkey (hvalue value rfl)⟩

theorem Predicate.Spelled.mono {p : Predicate} (h : p.Spelled w s)
    (hp : ∀ c ∈ p.conditions, ∀ part, c.Spelled w part → c.Spelled w' part) : p.Spelled w' s := by
  cases p with
  | position n => exact h
  | last => exact h
  | all conditions =>
    obtain ⟨hseal, parts, hparts, hconditions⟩ := h
    refine ⟨hseal, parts, hparts, ?_⟩
    exact ((List.forall₂_and_left conditions parts).mpr ⟨hp, hconditions⟩).imp
      fun c part h => h.1 (Text.trim part) h.2

theorem Condition.Spelled.key {c : Condition} (h : c.Spelled w s) : w.key c.key.toList := by
  cases c with
  | present key =>
    obtain ⟨rest, -, -, -, hkey⟩ := h
    exact hkey
  | equals key value =>
    obtain ⟨front, back, -, -, -, hkey, -⟩ := h
    exact hkey
  | contains key value | startsWith key value =>
    obtain ⟨inner, -, front, back, -, -, -, hkey, -⟩ := h
    exact hkey

theorem Predicate.Spelled.keys {p : Predicate} (h : p.Spelled w s) :
    ∀ c ∈ p.conditions, w.key c.key.toList := by
  cases p with
  | position n => nofun
  | last => nofun
  | all conditions =>
    obtain ⟨-, parts, -, hconditions⟩ := h
    exact forall_right_of_forall₂ hconditions.flip
      fun part c (hc : c.Spelled w (Text.trim part)) => hc.key

theorem Bracketed.exists_body {g : Grammar} {ps : List Predicate} (h : Bracketed g ps s) :
    ∀ p ∈ ps, ∃ body, g.predicate p body := by
  induction h with
  | nil => nofun
  | cons hp _ ih => exact List.forall_mem_cons.mpr ⟨⟨_, hp⟩, ih⟩

theorem Separated.exists_text {g : Grammar} {sts : List Step} (h : Separated g sts s) :
    ∀ st ∈ sts, ∃ text, st.Spelled g text := by
  induction h with
  | nil => nofun
  | cons hst _ ih => exact List.forall_mem_cons.mpr ⟨⟨_, hst⟩, ih⟩

theorem Path.Spelled.exists_text {g : Grammar} {path : Path} (h : path.Spelled g s) :
    ∀ st ∈ path.steps, ∃ text, st.Spelled g text := by
  cases h with
  | absolute _ h => exact h.exists_text
  | relative _ hst h => exact List.forall_mem_cons.mpr ⟨⟨_, hst⟩, h.exists_text⟩

theorem Path.Spelled.worded {path : Path} (h : path.Spelled .documented s) :
    ∀ st ∈ path.steps, (∀ n, st.test = .name n → ¬ "::".toList <:+: n.toList) ∧
      ∀ p ∈ st.predicates, ∀ c ∈ p.conditions, IsRun c.key.toList := by
  intro st hst
  obtain ⟨text, test, brackets, -, htest, hbrackets⟩ := h.exists_text st hst
  refine ⟨fun n hn => ?_, fun p hp => ?_⟩
  · rw [hn] at htest
    exact htest.2.2
  · obtain ⟨body, hbody⟩ := hbrackets.exists_body p hp
    exact hbody.keys

theorem Path.carries_documented {path : Path} (h : path.Plain) :
    ∀ st ∈ path.steps, st.Carries .accepted .documented := by
  intro st hst
  refine ⟨fun n hn _ => (h st hst).name n hn, fun p hp body hbody => ?_⟩
  refine hbody.mono fun c hc part hpart => hpart.mono ?_ ?_
  · exact fun _ => ((h st hst).conditions p hp c hc).key
  · intro value hvalue quote hquote _ hmem
    exact ((h st hst).conditions p hp c hc).literal value hvalue quote hmem hquote

theorem Step.carries_accepted (st : Step) : st.Carries .documented .accepted :=
  ⟨fun _ _ _ => trivial, fun _ _ _ hbody => hbody.mono fun _ _ _ hpart =>
    hpart.mono (fun _ => trivial) fun _ _ _ _ _ => trivial⟩

theorem parse_eq_empty {text : String} {e : Error} (h : parse text = .error e) :
    e = .empty ↔ Text.trim text.toList = [] := by
  unfold parse parseChars at h
  dsimp only at h
  split at h
  · next hnil =>
    obtain rfl := Except.error.inj h
    simpa using hnil
  · next hne =>
    split at h
    · cases h
    · next f _ =>
      obtain rfl := Except.error.inj h
      cases f <;> simpa [Reader.Failure.toError] using hne

/-- Exactly the texts of the accepted grammar are read, and all of the documented subset are. Where
the path has no axis in a name, only runs of name characters as keys and no quotes in its literals,
its text is documented. All other texts are refused, as empty only if they are blank. -/
theorem parse_accepts_grammar (text : String) :
    (∀ path, parse text = .ok path ↔ path.Spelled .accepted (Text.trim text.toList)) ∧
    (∀ path, path.Spelled .documented (Text.trim text.toList) → parse text = .ok path) ∧
    (∀ path, parse text = .ok path → path.Plain →
      path.Spelled .documented (Text.trim text.toList)) ∧
    ∀ e, parse text = .error e → (e = .empty ↔ Text.trim text.toList = []) := by
  refine ⟨fun path => parse_eq_ok, fun path h => ?_, fun path h hplain => ?_,
    fun e => parse_eq_empty⟩
  · exact parse_eq_ok.mpr (h.mono fun st _ => st.carries_accepted)
  · exact (parse_eq_ok.mp h).mono (Path.carries_documented hplain)

theorem parse_accepts_grammar_conjunction : ∃ path,
    parse " //node[@text='Save' and contains(@class, \"Btn\")]/@id" = .ok path ∧ path.Plain ∧
    path.Spelled .documented
      (Text.trim " //node[@text='Save' and contains(@class, \"Btn\")]/@id".toList) := by
  have hread : parse " //node[@text='Save' and contains(@class, \"Btn\")]/@id" = .ok ⟨true,
      [⟨.descendant, .name "node", [.all [.equals "text" "Save", .contains "class" "Btn"]]⟩,
        ⟨.child, .attr "id", []⟩]⟩ := by decide +kernel
  have hplain : Path.Plain ⟨true,
      [⟨.descendant, .name "node", [.all [.equals "text" "Save", .contains "class" "Btn"]]⟩,
        ⟨.child, .attr "id", []⟩]⟩ := by
    refine List.forall_mem_cons.mpr ⟨⟨?_, ?_⟩, List.forall_mem_singleton.mpr ⟨nofun, nofun⟩⟩
    · rintro n ⟨⟩
      decide +kernel
    · have hsave : Bare ' ' "Save".toList := by decide +kernel
      have hbtn : Bare ' ' "Btn".toList := by decide +kernel
      refine List.forall_mem_singleton.mpr (List.forall_mem_cons.mpr
        ⟨⟨by decide +kernel, ?_⟩, List.forall_mem_singleton.mpr ⟨by decide +kernel, ?_⟩⟩)
      · rintro value ⟨⟩
        exact hsave.not_isQuote
      · rintro value ⟨⟩
        exact hbtn.not_isQuote
  exact ⟨_, hread, hplain, (parse_accepts_grammar _).2.2.1 _ hread hplain⟩

/-- An axis, a comparison that is not `=`, a disjunction and an empty name of an attribute are all
accepted. -/
theorem parse_beyond_documented :
    (parse "/child::node" = .ok ⟨true, [⟨.child, .name "child::node", []⟩]⟩ ∧
      ¬ Path.Spelled .documented ⟨true, [⟨.child, .name "child::node", []⟩]⟩
        "/child::node".toList) ∧
    (parse "//node[@a!='1']" =
        .ok ⟨true, [⟨.descendant, .name "node", [.all [.equals "a!" "1"]]⟩]⟩ ∧
      ¬ Path.Spelled .documented ⟨true, [⟨.descendant, .name "node", [.all [.equals "a!" "1"]]⟩]⟩
        "//node[@a!='1']".toList) ∧
    (parse "//node[@a or @b]" =
        .ok ⟨true, [⟨.descendant, .name "node", [.all [.present "a or @b"]]⟩]⟩ ∧
      ¬ Path.Spelled .documented ⟨true, [⟨.descendant, .name "node", [.all [.present "a or @b"]]⟩]⟩
        "//node[@a or @b]".toList) ∧
    parse "//node[@]" = .ok ⟨true, [⟨.descendant, .name "node", [.all [.present ""]]⟩]⟩ ∧
      ¬ Path.Spelled .documented ⟨true, [⟨.descendant, .name "node", [.all [.present ""]]⟩]⟩
        "//node[@]".toList := by
  refine ⟨⟨by decide +kernel, fun h => ?_⟩, ⟨by decide +kernel, fun h => ?_⟩,
    ⟨by decide +kernel, fun h => ?_⟩, by decide +kernel, fun h => ?_⟩
  · exact (h.worded _ (List.mem_singleton_self _)).1 _ rfl (by decide +kernel)
  all_goals
    obtain ⟨-, hkeys⟩ := h.worded _ (List.mem_singleton_self _)
    have hkey := hkeys _ (List.mem_singleton_self _) _ (List.mem_singleton_self _)
    revert hkey
    decide +kernel

end Replay.XPath
