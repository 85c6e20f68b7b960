import Replay.Proofs.XPath.Acceptance
import Replay.Proofs.XPath.Meaning
set_option autoImplicit false

namespace Replay.XPath

open Xml (Document)

def Step.narrow (st : Step) (p : Predicate) : Step :=
  { st with predicates := st.predicates ++ [p] }

@[simp]
theorem Step.axis_narrow (st : Step) (p : Predicate) : (st.narrow p).axis = st.axis := rfl

@[simp]
theorem Step.test_narrow (st : Step) (p : Predicate) : (st.narrow p).test = st.test := rfl

section Text

variable {g : Grammar} {p : Predicate} {body s : List Char}

theorem Bracketed.narrow {ps : List Predicate} (h : Bracketed g ps s) (hp : g.predicate p body) :
    Bracketed g (ps ++ [p]) (s ++ '[' :: (body ++ [']'])) := by
  induction h with
  | nil => exact .cons hp .nil
  | cons hq _ ih =>
    have hcons := Bracketed.cons hq ih
    simpa using hcons

theorem Step.Spelled.narrow {st : Step} (h : st.Spelled g s) (hp : g.predicate p body) :
    (st.narrow p).Spelled g (s ++ '[' :: (body ++ [']'])) := by
  obtain ⟨test, brackets, rfl, htest, hbrackets⟩ := h
  exact ⟨test, _, List.append_assoc .., htest, hbrackets.narrow hp⟩

theorem Separated.narrow {before : List Step} {last : Step}
    (h : Separated g (before ++ [last]) s) (hp : g.predicate p body) :
    Separated g (before ++ [last.narrow p]) (s ++ '[' :: (body ++ [']'])) := by
  induction before generalizing s with
  | nil =>
    cases h with
    | @cons _ _ text _ htext h =>
      cases h
      have hcons := Separated.cons (htext.narrow hp) .nil
      simpa using hcons
  | cons st before ih =>
    cases h with
    | cons htext h =>
      have hcons := Separated.cons htext (ih h)
      simpa using hcons

theorem Path.Spelled.narrow {path : Path} (h : path.Spelled g s) {before : List Step} {last : Step}
    (hsteps : path.steps = before ++ [last]) (hp : g.predicate p body) :
    Path.Spelled g ⟨path.absolute, before ++ [last.narrow p]⟩ (s ++ '[' :: (body ++ [']'])) := by
  cases h with
  | absolute _ h =>
    obtain rfl := hsteps
    exact .absolute (by simp) (h.narrow hp)
  | @relative st sts text rest haxis htext h =>
    cases before with
    | nil =>
      obtain ⟨rfl, rfl⟩ := List.cons.inj hsteps
      cases h
      have haxis : (st.narrow p).axis = .child := haxis
      have hlast := Path.Spelled.relative haxis (htext.narrow hp) .nil
      simpa using hlast
    | cons st' before =>
      obtain ⟨rfl, rfl⟩ := List.cons.inj hsteps
      have hlonger := Path.Spelled.relative haxis htext (h.narrow hp)
      simpa using hlonger

/-- Behind an expression without blanks around it, a predicate is read as one more of its last
step. -/
theorem parse_narrowed {text : String} {path : Path} (hpath : parse text = .ok path)
    {before : List Step} {last : Step} (hsteps : path.steps = before ++ [last])
    (hp : p.Spelled .any body) :
    parse (String.ofList (Text.trim text.toList ++ '[' :: (body ++ [']']))) =
      .ok ⟨path.absolute, before ++ [last.narrow p]⟩ := by
  have hlonger := (parse_eq_ok.mp hpath).narrow hsteps (g := .accepted) hp
  rw [parse_eq_ok, String.toList_ofList, hlonger.isSolid.trim]
  exact hlonger

end Text

section Hits

variable (d : Document)

theorem mem_of_mem_filter {p : Predicate} {nodes : List Nat} {id : Nat}
    (h : id ∈ p.filter d nodes) : id ∈ nodes := by
  cases p with
  | position n => exact List.mem_of_getElem? (Option.mem_toList.mp h)
  | last => exact List.mem_of_getLast? (Option.mem_toList.mp h)
  | all conditions => exact (List.mem_filter.mp h).1

theorem met_of_mem_foldl {ps : List Predicate} {nodes : List Nat} {id : Nat}
    (h : id ∈ ps.foldl (Predicate.filter d) nodes) :
    id ∈ nodes ∧ ∀ conditions, .all conditions ∈ ps → ∀ c ∈ conditions, c.Met d id := by
  induction ps generalizing nodes with
  | nil => exact ⟨h, nofun⟩
  | cons p ps ih =>
    obtain ⟨hfirst, hmet⟩ := ih h
    refine ⟨mem_of_mem_filter d hfirst, fun conditions hmem c hc => ?_⟩
    obtain rfl | hmem := List.mem_cons.mp hmem
    · have hholds := List.all_eq_true.mp (List.mem_filter.mp hfirst).2 c hc
      exact Condition.holds_iff.mp hholds
    · exact hmet conditions hmem c hc

theorem ofSiblings_narrow (st : Step) (p : Predicate) (siblings : List Nat) :
    (st.narrow p).ofSiblings d siblings = p.filter d (st.ofSiblings d siblings) := by
  rw [Step.ofSiblings, Step.narrow, List.foldl_append]
  rfl

theorem inOrder_filter (picked : List Nat) (keep : Nat → Bool) :
    d.inOrder (picked.filter keep) = (d.inOrder picked).filter keep := by
  rw [d.inOrder_eq, d.inOrder_eq, List.filter_filter]
  refine List.filter_congr fun id _ => ?_
  simp [Bool.and_comm]

theorem select_narrow (st : Step) (conditions : List Condition) (context : NodeSet) :
    (st.narrow (.all conditions)).select d context =
      (st.select d context).filter fun id => conditions.all (·.holds d id) := by
  rw [Step.select, Step.select, ← inOrder_filter, List.filter_append, List.filter_flatMap]
  simp only [ofSiblings_narrow, Predicate.filter, Step.axis_narrow]
  congr 2
  split <;> rfl

theorem follow_append (before : List Step) (context : NodeSet) :
    (∃ reached, ∀ last, follow d (before ++ [last]) context = follow d [last] reached) ∨
      ∀ last, follow d (before ++ [last]) context = [] := by
  induction before generalizing context with
  | nil => exact Or.inl ⟨context, fun _ => rfl⟩
  | cons step before ih =>
    cases htest : step.test with
    | attr name => exact Or.inr fun last => by simp [follow, htest]
    | text => exact Or.inr fun last => by simp [follow, htest]
    | self => simpa only [List.cons_append, follow, htest] using ih _
    | name n => simpa only [List.cons_append, follow, htest] using ih _
    | any => simpa only [List.cons_append, follow, htest] using ih _

/-- A step selects elements by a test on their names. -/
def Step.TestsElements (st : Step) : Prop := st.test = .any ∨ ∃ n, st.test = .name n

theorem follow_singleton {last : Step} (h : last.TestsElements) (context : NodeSet) :
    follow d [last] context = (last.select d context).map .element := by
  obtain h | ⟨n, h⟩ := h <;> simp only [follow, h]

theorem met_of_mem_select {st : Step} {context : NodeSet} {id : Nat}
    (h : id ∈ st.select d context) :
    ∀ conditions, .all conditions ∈ st.predicates → ∀ c ∈ conditions, c.Met d id := by
  rw [Step.select, Document.inOrder_eq, List.mem_filter, decide_eq_true_eq, List.mem_append,
    List.mem_flatMap] at h
  obtain ⟨-, h | ⟨p, -, h⟩⟩ := h
  · split at h
    · exact (met_of_mem_foldl d h).2
    · cases h
  · exact (met_of_mem_foldl d h).2

theorem follow_narrow {last : Step} (h : last.TestsElements) (before : List Step)
    (conditions : List Condition) (context : NodeSet) :
    follow d (before ++ [last.narrow (.all conditions)]) context =
      (follow d (before ++ [last]) context).filter
        fun hit => decide (∀ c ∈ conditions, c.Met d hit.owner) := by
  obtain ⟨reached, hreached⟩ | hnone := follow_append d before context
  · have hnarrow : (last.narrow (.all conditions)).TestsElements := h
    rw [hreached, hreached, follow_singleton d h, follow_singleton d hnarrow, select_narrow,
      List.filter_map]
    refine congrArg _ (List.filter_congr fun id _ => ?_)
    rw [Bool.eq_iff_iff, List.all_eq_true, Function.comp_apply, decide_eq_true_eq]
    simp only [Condition.holds_iff, Hit.owner]
  · rw [hnone, hnone, List.filter_nil]

theorem follow_narrow_self {last : Step} (h : last.test = .self) (before : List Step)
    (p : Predicate) (context : NodeSet) :
    follow d (before ++ [last.narrow p]) context = follow d (before ++ [last]) context := by
  obtain ⟨reached, hreached⟩ | hnone := follow_append d before context
  · rw [hreached, hreached]
    simp only [follow, Step.test_narrow, Step.axis_narrow, h]
  · rw [hnone, hnone]

end Hits

/-- Behind a test on elements no condition is ignored: all hits meet those of the last step, and an
expression with another condition behind it is read, and yields of these hits the ones that meet it
too, in the same order. -/
theorem evaluate_narrowed (d : Document) {text : String} {path : Path}
    (hpath : parse text = .ok path) {before : List Step} {last : Step}
    (hsteps : path.steps = before ++ [last]) (hlast : last.TestsElements) :
    (∀ hit ∈ path.evaluate d, ∃ id, hit = .element id ∧
      ∀ conditions, .all conditions ∈ last.predicates → ∀ c ∈ conditions, c.Met d id) ∧
    ∀ conditions body, (Predicate.all conditions).Spelled .any body → ∃ longer,
      parse (String.ofList (Text.trim text.toList ++ '[' :: (body ++ [']']))) = .ok longer ∧
      longer.evaluate d =
        (path.evaluate d).filter fun hit => decide (∀ c ∈ conditions, c.Met d hit.owner) := by
  have hevaluate : path.evaluate d = follow d (before ++ [last]) ⟨true, []⟩ := by
    rw [Path.evaluate, hsteps]
  constructor
  · rw [hevaluate]
    obtain ⟨reached, hreached⟩ | hnone := follow_append d before ⟨true, []⟩
    · rw [hreached, follow_singleton d hlast]
      intro hit hhit
      obtain ⟨id, hid, rfl⟩ := List.mem_map.mp hhit
      exact ⟨id, rfl, met_of_mem_select d hid⟩
    · rw [hnone]
      nofun
  · intro conditions body hbody
    refine ⟨_, parse_narrowed hpath hsteps hbody, ?_⟩
    rw [hevaluate, Path.evaluate, follow_narrow d hlast]

def leaves : Document where
  elements :=
    #[{ name := "a", attributes := [], parent := none, children := #[1, 2, 3], depth := 0 },
      { name := "b", attributes := [⟨"k", "1"⟩], parent := some 0, depth := 1 },
      { name := "b", attributes := [⟨"k", "2"⟩], parent := some 0, depth := 1 },
      { name := "b", attributes := [], parent := some 0, depth := 1 }]

theorem evaluate_narrowed_leaves : ∃ path last, parse "//b[@k]" = .ok path ∧
    path.steps = [] ++ [last] ∧ last.TestsElements ∧
    path.evaluate leaves = [.element 1, .element 2] ∧
    ∃ longer, parse "//b[@k][@k='2']" = .ok longer ∧ longer.evaluate leaves = [.element 2] := by
  have hpath : parse "//b[@k]" =
      .ok ⟨true, [] ++ [⟨.descendant, .name "b", [.all [.present "k"]]⟩]⟩ := by decide +kernel
  have hevaluate : Path.evaluate leaves
      ⟨true, [] ++ [⟨.descendant, .name "b", [.all [.present "k"]]⟩]⟩ =
        [.element 1, .element 2] := by decide +kernel
  have hbody : (Predicate.all [.equals "k" "2"]).Spelled .any "@k='2'".toList := by
    have hread : Reader.predicate "@k='2']".toList = .ok (.all [.equals "k" "2"], []) := by
      decide +kernel
    obtain ⟨body, hcut, hbody⟩ := Reader.predicate_eq_ok.mp hread
    have htext : "@k='2'".toList ++ [']'] = body ++ [']'] := by
      rw [← hcut]
      decide +kernel
    rwa [List.append_cancel_right htext]
  obtain ⟨longer, hlonger, hhits⟩ :=
    (evaluate_narrowed leaves hpath rfl (Or.inr ⟨"b", rfl⟩)).2 _ _ hbody
  have htext : String.ofList (Text.trim "//b[@k]".toList ++ '[' :: ("@k='2'".toList ++ [']'])) =
      "//b[@k][@k='2']" := by decide +kernel
  rw [htext] at hlonger
  refine ⟨_, _, hpath, rfl, Or.inr ⟨"b", rfl⟩, hevaluate, longer, hlonger, ?_⟩
  rw [hhits, hevaluate]
  decide +kernel

/-- A condition behind `.` changes nothing. -/
theorem evaluate_self_narrowed (d : Document) {text : String} {path : Path}
    (hpath : parse text = .ok path) {before : List Step} {last : Step}
    (hsteps : path.steps = before ++ [last]) (hlast : last.test = .self) {p : Predicate}
    {body : List Char} (hp : p.Spelled .any body) : ∃ longer,
      parse (String.ofList (Text.trim text.toList ++ '[' :: (body ++ [']']))) = .ok longer ∧
      longer.evaluate d = path.evaluate d := by
  refine ⟨_, parse_narrowed hpath hsteps hp, ?_⟩
  rw [Path.evaluate, Path.evaluate, hsteps, follow_narrow_self d hlast]

/-- The last leaf has no attribute `k` and is found nevertheless. -/
theorem evaluate_self_unmet :
    Document.parse? "<a><b k='1'/><b k='2'/><b/></a>" = some leaves ∧
    parse "//b/.[@k]" =
      .ok ⟨true, [⟨.descendant, .name "b", []⟩, ⟨.child, .self, [.all [.present "k"]]⟩]⟩ ∧
    Path.evaluate leaves
      ⟨true, [⟨.descendant, .name "b", []⟩, ⟨.child, .self, [.all [.present "k"]]⟩]⟩ =
        [.element 1, .element 2, .element 3] ∧
    ¬ (Condition.present "k").Met leaves 3 := by
  refine ⟨?_, ?_, ?_, ?_⟩ <;> decide +kernel

end Replay.XPath
