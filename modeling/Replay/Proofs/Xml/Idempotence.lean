import Replay.Proofs.Xml.Closing
import Replay.Proofs.Xml.Escaped
set_option autoImplicit false

namespace Replay.Xml

/-- The first opening bracket comes before the last closing one. -/
def Bracketed (text : List Char) : Prop :=
  ∃ lead init tail, '<' ∉ lead ∧ '>' ∉ tail ∧ text = lead ++ '<' :: (init ++ '>' :: tail)

namespace Repair

def Trimmed (s : List Char) : Prop := ∃ init, s = '<' :: (init ++ ['>'])

theorem trimNoise_of_trimmed {s : List Char} (h : Trimmed s) : trimNoise s = s := by
  obtain ⟨init, rfl⟩ := h
  have hlead : '<' ∉ ([] : List Char) := List.not_mem_nil
  have htail : '>' ∉ ([] : List Char) := List.not_mem_nil
  exact trimNoise_eq hlead htail

theorem trimmed_trimNoise {s : List Char} (h : Bracketed s) : Trimmed (trimNoise s) := by
  obtain ⟨lead, init, tail, hlead, htail, rfl⟩ := h
  exact ⟨init, trimNoise_eq hlead htail⟩

theorem Trimmed.escapeAmpersands {s : List Char} (h : Trimmed s) :
    Trimmed (escapeAmpersands s) := by
  obtain ⟨init, rfl⟩ := h
  refine ⟨Repair.escapeAmpersands init, ?_⟩
  rw [escapeAmpersands_cons_of_ne (by decide), escapeAmpersands_append_cons (by decide) (by decide)]
  rfl

theorem Trimmed.append {s more : List Char} (h : Trimmed s) (hmore : Trimmed more) :
    Trimmed (s ++ more) := by
  obtain ⟨init, rfl⟩ := h
  obtain ⟨init', rfl⟩ := hmore
  exact ⟨init ++ '>' :: '<' :: init', by simp⟩

theorem Trimmed.closeElements {s : List Char} (h : Trimmed s) : Trimmed (closeElements s) := by
  unfold Repair.closeElements
  induction (unclosedNames? s).getD [] generalizing s with
  | nil => rwa [List.flatMap_nil, List.append_nil]
  | cons name names ih =>
    rw [List.flatMap_cons, ← List.append_assoc]
    exact ih (h.append ⟨'/' :: name, rfl⟩)

theorem Trimmed.declare {s : List Char} (h : Trimmed s) :
    Trimmed (declare s) ∧ Repair.declare (Repair.declare s) = Repair.declare s := by
  unfold Repair.declare
  split
  · exact ⟨h, rfl⟩
  · refine ⟨?_, if_pos rfl⟩
    obtain ⟨init, rfl⟩ := h
    exact ⟨declaration.toList.tail ++ '\n' :: '<' :: init, by simp [declaration]⟩

theorem fromMarkup_of_trimmed {s : List Char} (h : Trimmed s) : fromMarkup s = s := by
  obtain ⟨init, rfl⟩ := h
  exact fromMarkup_cons _

theorem referenced_unclosed {s : List Char} (hs : Trimmed s) {names : List (List Char)}
    (h : unclosedNames? (Repair.escapeAmpersands s) = some names) :
    ∀ name ∈ names, Referenced name := by
  intro name hname
  obtain ⟨-, htrack⟩ := unclosedNames?_eq_some.mp h
  obtain hnil | ⟨attributes, hmem⟩ := track_opened htrack name hname
  · cases hnil
  have hworded : (Mode.content false).Worded := trivial
  rw [fromMarkup_of_trimmed hs.escapeAmpersands,
    (readAlike_escapeAmpersands (Mode.reading_content false s) hworded).1] at hmem
  obtain ⟨m, -, hm⟩ := List.mem_map.mp hmem
  cases m with
  | opening opened attributes' =>
    obtain ⟨rfl, -⟩ := Markup.opening.inj hm
    exact referenced_escapeAmpersands opened
  | void | closing | characters => cases hm

theorem referenced_endTags {names : List (List Char)} (h : ∀ name ∈ names, Referenced name) :
    Referenced (names.flatMap endTag) := by
  induction names with
  | nil => trivial
  | cons name names ih =>
    obtain ⟨hname, hnames⟩ := List.forall_mem_cons.mp h
    have hopen : Referenced ['<', '/'] := referenced_of_notMem (by decide)
    have hclose : Referenced ['>'] := referenced_of_notMem (by decide)
    exact (hopen.append (hname.append hclose)).append (ih hnames)

theorem referenced_declare {s : List Char} (h : Referenced s) : Referenced (declare s) := by
  unfold Repair.declare
  split
  · exact h
  · have hdeclaration : Referenced declaration.toList := referenced_of_notMem (by decide)
    have hline : Referenced ['\n'] := referenced_of_notMem (by decide)
    exact hdeclaration.append (hline.append h)

theorem referenced_repaired {s : List Char} (h : Trimmed s) :
    Referenced (declare (closeElements (Repair.escapeAmpersands s))) := by
  refine referenced_declare ((referenced_escapeAmpersands s).append ?_)
  cases hnames : unclosedNames? (Repair.escapeAmpersands s) with
  | none => trivial
  | some names => exact referenced_endTags (referenced_unclosed h hnames)

theorem closeElements_of_nothing {s : List Char}
    (h : ∀ names, unclosedNames? s = some names → names = []) : closeElements s = s := by
  rw [Repair.closeElements]
  cases hnames : unclosedNames? s with
  | none => simp
  | some names => simp [h names hnames]

theorem repair_of_fixed {s : List Char} (h : ∀ step ∈ RepairStep.all, apply step s = s) :
    repair (String.ofList s) = ⟨String.ofList s, []⟩ := by
  have hrun (steps : List RepairStep) (hsteps : ∀ step ∈ steps, apply step s = s) :
      steps.foldl advance (s, []) = (s, []) := by
    induction steps with
    | nil => rfl
    | cons step steps ih =>
      obtain ⟨hstep, hrest⟩ := List.forall_mem_cons.mp hsteps
      have hsame : advance (s, []) step = (s, []) := if_pos hstep
      rw [List.foldl_cons, hsame, ih hrest]
  rw [repair, repairChars, String.toList_ofList, hrun _ h]

end Repair

/-- Repair is idempotent on what looks like markup: no step applies to a text that was repaired. -/
theorem repair_repair {content : String} (h : Bracketed content.toList) :
    repair (repair content).content = ⟨(repair content).content, []⟩ := by
  have htrimmed := Repair.trimmed_trimNoise h
  have hclosed := htrimmed.escapeAmpersands.closeElements
  obtain ⟨hdeclared, hagain⟩ := hclosed.declare
  rw [Repair.content_repair]
  refine Repair.repair_of_fixed fun step _ => ?_
  cases step with
  | trimSurroundingNoise =>
    have hfixed := Repair.trimNoise_of_trimmed hdeclared
    exact hfixed
  | escapeBareAmpersands =>
    have hfixed := Repair.escapeAmpersands_of_referenced (Repair.referenced_repaired htrimmed)
    exact hfixed
  | closeUnclosedElements =>
    refine Repair.closeElements_of_nothing fun names hnames => ?_
    rw [Repair.unclosedNames?_declare] at hnames
    exact Repair.nothing_unclosed_closeElements hnames
  | prependDeclaration => exact hagain

/-- The end tag that is put behind a name with an open quote ends nothing, and is left alone. -/
theorem repair_repair_openQuote :
    let content := "$ <a' b=\"x&y\"'>&<c&d>"
    let closed := "<?xml version=\"1.0\" encoding=\"UTF-8\"?>\n" ++
      "<a' b=\"x&amp;y\"'>&amp;<c&amp;d></c&amp;d></a'>"
    Bracketed content.toList ∧ (repair content).content = closed ∧ repair closed = ⟨closed, []⟩ := by
  intro content closed
  have hbracketed : Bracketed content.toList :=
    ⟨"$ ".toList, "a' b=\"x&y\"'>&<c&d".toList, [], by decide, by decide, by decide +kernel⟩
  have hrepaired : (repair content).content = closed := by decide +kernel +zetaReduce
  have hagain := repair_repair hbracketed
  rw [hrepaired] at hagain
  exact ⟨hbracketed, hrepaired, hagain⟩

end Replay.Xml
