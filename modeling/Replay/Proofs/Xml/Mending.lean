import Replay.Proofs.Xml.Escaping
set_option autoImplicit false

/-!
What repair makes of texts. A good capture comes through with whatever stands around it
(`parse?_repair_surrounded`), and an interrupted one is mended to the elements whose start tags were
captured (`parse?_repair_interrupted`). In both cases the text that is left after trimming begins and
ends with markup (`Repair.trimNoise_eq`), escaping is not seen in it, and the end tags that are put
behind it close what is open (`Repair.parse?_mended`).
-/

namespace Replay.Xml

namespace Repair

theorem content_advance (state : List Char × List RepairStep) (st : RepairStep) :
    (advance state st).1 = apply st state.1 := by
  unfold advance
  dsimp only
  split
  · next h => exact h.symm
  · rfl

theorem content_repair (content : String) : (repair content).content =
    String.ofList (declare (closeElements (escapeAmpersands (trimNoise content.toList)))) := by
  have hall : (repairChars content.toList).1 =
      declare (closeElements (escapeAmpersands (trimNoise content.toList))) := by
    simp only [repairChars, RepairStep.all, List.foldl_cons, List.foldl_nil, content_advance, apply]
  rw [repair, ← hall]

theorem exists_last_bracket {s : List Char} (h : '>' ∈ s) :
    ∃ init tail, s = init ++ '>' :: tail ∧ '>' ∉ tail := by
  obtain ⟨back, front, hs, hback⟩ := List.eq_append_cons_of_mem (List.mem_reverse.mpr h)
  refine ⟨front.reverse, back.reverse, ?_, by simpa using hback⟩
  rw [← List.reverse_reverse s, hs]
  simp

/-- Trimming leaves the text from the first opening to the last closing bracket. -/
theorem trimNoise_eq {lead init tail : List Char} (hlead : '<' ∉ lead) (htail : '>' ∉ tail) :
    trimNoise (lead ++ '<' :: (init ++ '>' :: tail)) = '<' :: (init ++ ['>']) := by
  have hfirst : (lead ++ '<' :: (init ++ '>' :: tail)).dropWhile (· != '<') =
      '<' :: (init ++ '>' :: tail) := fromMarkup_append hlead _
  have hlast : ('<' :: (init ++ '>' :: tail)).reverse.dropWhile (· != '>') =
      '>' :: (init.reverse ++ ['<']) := by
    have hrev : ('<' :: (init ++ '>' :: tail)).reverse =
        tail.reverse ++ '>' :: (init.reverse ++ ['<']) := by simp
    rw [hrev, List.dropWhile_append_of_pos]
    · rfl
    · intro c hc
      have hne : c ≠ '>' := fun heq => htail (heq ▸ List.mem_reverse.mp hc)
      simpa using hne
  unfold trimNoise
  dsimp only
  rw [hfirst, hlast]
  simp

/-- What a text leaves open does not depend on what stands in front of its markup. -/
theorem unclosedNames?_eq_some {s : List Char} {names : List (List Char)} :
    unclosedNames? s = some names ↔ ((Mode.content false).after (fromMarkup s)).IsContent ∧
      ((Mode.content false).emits (fromMarkup s)).foldlM track [] = some names := by
  obtain ⟨lead, hlead, hscan⟩ := exists_scan s
  have hrun : (scan s).markup.foldlM (fun names p => track names p.markup) [] =
      ((Mode.content false).emits (fromMarkup s)).foldlM track [] := by
    have hmap : (scan s).markup.foldlM (fun names p => track names p.markup) [] =
        ((scan s).markup.map Placed.markup).foldlM track [] := by
      rw [List.foldlM_map]
    rw [hmap, hscan]
    obtain rfl | rfl := hlead <;> rfl
  unfold unclosedNames?
  dsimp only
  rw [hrun, Option.ite_none_right_eq_some, Document.atRest_fromMarkup]

theorem unclosedNames_eq {s : List Char} (hrest : ((Mode.content false).after (fromMarkup s)).IsContent)
    {b : Builder} (hrun : ((Mode.content false).emits (fromMarkup s)).foldlM Builder.take {} = some b) :
    unclosedNames? s = some b.openNames :=
  unclosedNames?_eq_some.mpr ⟨hrest, Builder.track_run Builder.sound_empty hrun⟩

theorem fromMarkup_declare (rest : List Char) :
    (Mode.content false).emits (fromMarkup (declare ('<' :: rest))) =
        (Mode.content false).emits ('<' :: rest) ∧
      (Mode.content false).after (fromMarkup (declare ('<' :: rest))) =
        (Mode.content false).after ('<' :: rest) := by
  unfold declare
  split
  · exact ⟨rfl, rfl⟩
  · have hline : declaration.toList ++ '\n' :: '<' :: rest =
        (declaration.toList ++ ['\n']) ++ '<' :: rest := by simp
    have hfrom : fromMarkup (declaration.toList ++ '\n' :: '<' :: rest) =
        declaration.toList ++ '\n' :: '<' :: rest := rfl
    rw [hfrom, hline]
    exact Mode.append_of_unseen (by decide +kernel) (by decide +kernel) _

/-- A text that begins with markup, and whose markup is complete, is mended to what is built from it and
from what the end tags behind it are read as, whatever its ampersands. -/
theorem parse?_closed {rest : List Char} {b : Builder} (closed : Builder)
    (hrest : ((Mode.content false).after ('<' :: rest)).IsContent)
    (hrun : ((Mode.content false).emits ('<' :: rest)).foldlM Builder.take {} = some b)
    (hnames : b.document.NamesAvoid ['&']) (hsize : closed.elements.size ≠ 0)
    (hend : (((Mode.content false).after ('<' :: rest)).after
      (b.openNames.flatMap endTag)).IsContent)
    (hclose : (((Mode.content false).after ('<' :: rest)).emits
      (b.openNames.flatMap endTag)).foldlM Builder.take b = some closed)
    (hopen : closed.unclosed = []) :
    Document.parse? (String.ofList (declare (closeElements (escapeAmpersands ('<' :: rest))))) =
      some closed.document := by
  obtain ⟨hemits, hafter⟩ := emits_escapeAmpersands hnames hrest
    (Builder.holds_run Builder.sound_empty hrun)
  rw [escapeAmpersands_cons_of_ne (by decide)] at hemits hafter ⊢
  have hnamed : unclosedNames? ('<' :: escapeAmpersands rest) = some b.openNames :=
    unclosedNames_eq (by rwa [fromMarkup_cons, hafter]) (by rwa [fromMarkup_cons, hemits])
  have happended : closeElements ('<' :: escapeAmpersands rest) =
      '<' :: (escapeAmpersands rest ++ b.openNames.flatMap endTag) := by
    rw [closeElements, hnamed]
    rfl
  obtain ⟨hdeclared, hdeclared'⟩ :=
    fromMarkup_declare (escapeAmpersands rest ++ b.openNames.flatMap endTag)
  rw [happended, Document.parse?_iff, String.toList_ofList, hdeclared, hdeclared', ← List.cons_append,
    Mode.after_append, Mode.emits_append, hafter, hemits, List.foldlM_append, hrun]
  exact ⟨hend, closed, hclose, hopen, hsize, rfl⟩

/-- A text that begins with markup and is complete up to the end tags of open elements is mended to
what was built from it, whatever its ampersands. -/
theorem parse?_mended {rest : List Char} {b : Builder}
    (hrest : ((Mode.content false).after ('<' :: rest)).IsContent)
    (hrun : ((Mode.content false).emits ('<' :: rest)).foldlM Builder.take {} = some b)
    (hnames : b.document.NamesAvoid ['&']) (hsize : b.elements.size ≠ 0)
    (hclosing : (((Mode.content false).after ('<' :: rest)).after
        (b.openNames.flatMap endTag)).IsContent ∧
      ((Mode.content false).after ('<' :: rest)).emits (b.openNames.flatMap endTag) =
        b.openNames.map .closing) :
    Document.parse? (String.ofList (declare (closeElements (escapeAmpersands ('<' :: rest))))) =
      some b.document := by
  have hclose := b.run_closing
  rw [← hclosing.2] at hclose
  exact parse?_closed { b with unclosed := [] } hrest hrun hnames hsize hclosing.1 hclose rfl

end Repair

namespace Document

open Repair

/-- Repair does no harm: a text that is a document stays that document, with whatever text around it,
as long as no markup seems to begin before it and none seems to end behind it. -/
theorem parse?_repair_surrounded {content : String} {d : Document}
    (hparse : parse? content = some d) (hnames : d.NamesAvoid ['&']) {before behind : String}
    (hbefore : '<' ∉ before.toList) (hbehind : '>' ∉ behind.toList) :
    parse? (repair (before ++ content ++ behind)).content = some d := by
  obtain ⟨hrest, b, hrun, hopen, hsize, rfl⟩ := parse?_iff.mp hparse
  obtain ⟨-, hnone⟩ | ⟨lead, rest, hlead, htext, hfrom⟩ := fromMarkup_cases content.toList
  · rw [hnone] at hrun
    obtain rfl := Option.some.inj hrun
    exact absurd rfl hsize
  rw [hfrom] at hrest hrun
  have hbracket : '>' ∈ rest := by
    by_contra hno
    exact (Mode.isContent_of_after hrest (by simpa using hno)).2 List.mem_cons_self
  obtain ⟨init, tail, rfl, htail⟩ := exists_last_bracket hbracket
  have hsplit : '<' :: (init ++ '>' :: tail) = '<' :: (init ++ ['>']) ++ tail := by simp
  rw [hsplit, Mode.after_append] at hrest
  obtain ⟨⟨seen, hcore⟩, hplain⟩ := Mode.isContent_of_after hrest htail
  rw [hsplit, Mode.emits_append, hcore, (Mode.after_emits_content seen hplain).2,
    List.append_nil] at hrun
  have hnoOpen : b.openNames = [] := by rw [Builder.openNames, hopen]; rfl
  have hwhole : (before ++ content ++ behind).toList =
      (before.toList ++ lead) ++ '<' :: (init ++ '>' :: (tail ++ behind.toList)) := by
    simp [htext]
  have htrim : trimNoise (before ++ content ++ behind).toList = '<' :: (init ++ ['>']) := by
    rw [hwhole]
    exact trimNoise_eq (by simp [hbefore, hlead]) (by simp [htail, hbehind])
  rw [content_repair, htrim]
  refine parse?_mended ⟨seen, hcore⟩ hrun hnames hsize ?_
  rw [hnoOpen]
  exact ⟨⟨seen, hcore⟩, rfl⟩

theorem parse?_repair_surrounded_statusLine :
    let content := "<hierarchy><!-- R&D <a> --><node text='a &amp; b > c'/>x & y</hierarchy>"
    let d : Document := ⟨#[
      { name := "hierarchy", attributes := [], parent := none, children := #[1], depth := 0
        hasText := true },
      { name := "node", attributes := [⟨"text", "a & b > c"⟩], parent := some 0, depth := 1 }]⟩
    parse? content = some d ∧ d.NamesAvoid ['&'] ∧ '<' ∉ "> adb: ".toList ∧
      '>' ∉ "UI hierchary dumped to: <".toList ∧
      parse? (repair ("> adb: " ++ content ++ "UI hierchary dumped to: <")).content = some d := by
  refine ⟨by decide +kernel, by decide +kernel, by decide +kernel, by decide +kernel, ?_⟩
  exact parse?_repair_surrounded (by decide +kernel) (by decide +kernel) (by decide +kernel)
    (by decide +kernel)

end Document

def startTags (text : List Char) : Nat := (scan text).markup.countP fun p => p.markup.isStart

/-- Every closing bracket behind the start tag of the root ends a construct. In front of that tag,
a document type declaration may hold further ones. -/
def ClosesOnly (text : List Char) : Prop :=
  ∀ before after, text = before ++ '>' :: after → 0 < startTags before →
    ∃ markup, (scan before).mode.effect '>' = .finish markup

instance (text : List Char) : Decidable (ClosesOnly text) :=
  decidable_of_iff (∀ i < text.length, text[i]? = some '>' → 0 < startTags (text.take i) →
    (scan (text.take i)).mode.effect '>' matches .finish _) <| by
    constructor
    · rintro h before after rfl hroot
      have hfinish := h before.length (by simp) (by simp) (by simpa using hroot)
      rw [List.take_left] at hfinish
      cases heffect : (scan before).mode.effect '>' with
      | goOn m => simp [heffect] at hfinish
      | finish markup => exact ⟨markup, rfl⟩
    · intro h i hi hc hroot
      obtain ⟨hi, hc⟩ := List.getElem?_eq_some_iff.mp hc
      have hsplit : text = text.take i ++ '>' :: text.drop (i + 1) := by
        rw [← hc, ← List.drop_eq_getElem_cons, List.take_append_drop]
      obtain ⟨markup, hfinish⟩ := h _ _ hsplit hroot
      rw [hfinish]

theorem startTags_eq (text : List Char) :
    startTags text = ((Mode.content false).emits (fromMarkup text)).countP (·.isStart) := by
  obtain ⟨lead, hlead, hscan⟩ := exists_scan text
  have hcount : startTags text = ((scan text).markup.map Placed.markup).countP (·.isStart) := by
    rw [List.countP_map]
    rfl
  rw [hcount, hscan]
  obtain rfl | rfl := hlead
  · rfl
  · rfl

namespace Document

theorem NamesAvoid.within {d larger : Document} {marks : List Char} (h : larger.NamesAvoid marks)
    (hwithin : d.Within larger) : d.NamesAvoid marks := by
  intro id hid
  rw [← hwithin.name_eq hid, ← hwithin.attributes_eq hid]
  exact h id (Nat.lt_of_lt_of_le hid hwithin.size_le)

theorem NamesAvoid.mono {d : Document} {marks fewer : List Char} (h : d.NamesAvoid marks)
    (hsub : fewer ⊆ marks) : d.NamesAvoid fewer := fun id hid =>
  ⟨fun c hc => (h id hid).1 c (hsub hc), fun a ha c hc => (h id hid).2 a ha c (hsub hc)⟩

end Document

namespace Mode

theorem countP_emits {m : Mode} {s : List Char} (hs : '>' ∉ s) :
    (m.emits s).countP (·.isStart) = 0 := by
  rw [List.countP_eq_zero]
  intro mk hmk
  rw [eq_characters_of_emits hs hmk]
  exact Bool.false_ne_true

end Mode

theorem exists_captured {text : List Char} (h : 0 < startTags text) :
    ∃ lead init tail, text = lead ++ '<' :: (init ++ '>' :: tail) ∧ '<' ∉ lead ∧ '>' ∉ tail := by
  rw [startTags_eq] at h
  obtain ⟨-, hnone⟩ | ⟨lead, rest, hlead, htext, hfrom⟩ := fromMarkup_cases text
  · rw [hnone] at h
    exact absurd h (Nat.lt_irrefl 0)
  · have hbracket : '>' ∈ rest := by
      by_contra hno
      rw [hfrom, Mode.countP_emits (by simpa using hno)] at h
      exact absurd h (Nat.lt_irrefl 0)
    obtain ⟨init, tail, rfl, htail⟩ := Repair.exists_last_bracket hbracket
    exact ⟨lead, init, tail, htext, hlead, htail⟩

theorem Mode.read_captured {init tail : List Char} (htail : '>' ∉ tail)
    (hrest : ((content false).after ('<' :: (init ++ '>' :: tail))).IsContent) :
    ((content false).after ('<' :: (init ++ ['>']))).IsContent ∧
      (content false).emits ('<' :: (init ++ '>' :: tail)) =
        (content false).emits ('<' :: (init ++ ['>'])) := by
  have hsplit : '<' :: (init ++ '>' :: tail) = '<' :: (init ++ ['>']) ++ tail := by simp
  rw [hsplit, after_append] at hrest
  obtain ⟨⟨seen, hafter⟩, hplain⟩ := isContent_of_after hrest htail
  rw [hsplit, emits_append, hafter, (after_emits_content seen hplain).2, List.append_nil]
  exact ⟨⟨seen, rfl⟩, rfl⟩

theorem after_captured {lead init tail rest : List Char} (hlead : '<' ∉ lead) (htail : '>' ∉ tail)
    (hcloses : ClosesOnly (lead ++ '<' :: (init ++ '>' :: tail) ++ rest))
    (hroot : 0 < startTags (lead ++ '<' :: (init ++ '>' :: tail))) :
    (Mode.content false).after ('<' :: (init ++ ['>'])) = .content false := by
  have hfinish : ∃ markup, ((Mode.content false).after ('<' :: init)).effect '>' = .finish markup := by
    obtain hno | hsome := Nat.eq_zero_or_pos (startTags (lead ++ '<' :: init))
    · -- The root's start tag ends here.
      have hsplit : '<' :: (init ++ '>' :: tail) = '<' :: init ++ '>' :: tail := rfl
      rw [startTags_eq, fromMarkup_append hlead] at hno hroot
      rw [hsplit, Mode.emits_append, List.countP_append, hno, Mode.emits_cons,
        List.countP_append, Mode.countP_emits htail] at hroot
      have hno' : ¬ (((Mode.content false).after ('<' :: init)).IsContent ∧ '>' = '<') :=
        fun h => absurd h.2 (by decide)
      rw [Mode.yield_of_effect hno'] at hroot
      cases heffect : ((Mode.content false).after ('<' :: init)).effect '>' with
      | goOn m =>
        rw [heffect] at hroot
        exact absurd hroot (Nat.lt_irrefl 0)
      | finish markup => exact ⟨markup, rfl⟩
    · have hmode : (scan (lead ++ '<' :: init)).mode = (Mode.content false).after ('<' :: init) := by
        have hmem : '<' ∈ withoutByteOrderMark (lead ++ '<' :: init) := by
          by_contra hno
          have hnone := fromMarkup_of_notMem hno
          rw [fromMarkup_withoutByteOrderMark, fromMarkup_append hlead] at hnone
          cases hnone
        rw [mode_scan, Mode.after_fromMarkup hmem, fromMarkup_withoutByteOrderMark,
          fromMarkup_append hlead]
      rw [← hmode]
      exact hcloses _ (tail ++ rest) (by simp) hsome
  obtain ⟨markup, hfinish⟩ := hfinish
  have hsplit : '<' :: (init ++ ['>']) = '<' :: init ++ ['>'] := rfl
  rw [hsplit, Mode.after_append, Mode.after_cons, Mode.after_nil,
    Mode.step_of_effect fun h => absurd h.2 (by decide), hfinish]

namespace Document

/-- An interrupted capture is repaired to the part that was captured: of a document in which
closing brackets end constructs only, a piece from the start that has the root's start tag gives the
elements whose start tags it has, with their names, attributes, parents and depths. -/
theorem parse?_repair_interrupted {content : String} {d : Document}
    (hparse : parse? content = some d) (hcloses : ClosesOnly content.toList)
    (hnames : d.NamesAvoid ['&', '"', '\'']) {piece : String}
    (hpiece : piece.toList <+: content.toList) (hroot : 0 < startTags piece.toList) :
    ∃ captured, parse? (repair piece).content = some captured ∧
      captured.size = startTags piece.toList ∧ captured.Within d := by
  obtain ⟨hrest, whole, hrun, -, -, rfl⟩ := parse?_iff.mp hparse
  obtain ⟨rest, htext⟩ := hpiece
  obtain ⟨lead, init, tail, hcaptured, hlead, htail⟩ := exists_captured hroot
  rw [← htext, hcaptured] at hcloses
  have hafter := after_captured hlead htail hcloses (hcaptured ▸ hroot)
  have hsplit : '<' :: (init ++ '>' :: tail) = '<' :: (init ++ ['>']) ++ tail := by simp
  -- What is built from the piece is built on the way to the whole document.
  have hfrom : fromMarkup content.toList = '<' :: (init ++ ['>']) ++ (tail ++ rest) := by
    rw [← htext, hcaptured, List.append_assoc, List.cons_append, fromMarkup_append hlead]
    simp
  rw [hfrom, Mode.emits_append, List.foldlM_append] at hrun
  obtain ⟨b, hbuilt, hmore⟩ := Option.bind_eq_some_iff.mp hrun
  have hwithin := (Builder.within_run hmore).1
  have hsize : b.document.size = startTags piece.toList := by
    have hcount := (Builder.within_run hbuilt).2
    rw [startTags_eq, hcaptured, fromMarkup_append hlead, hsplit, Mode.emits_append,
      List.countP_append, Mode.countP_emits htail, hcount]
    exact Nat.zero_add _
  have havoid := hnames.within hwithin
  -- The names of the open elements are put behind the piece in end tags.
  have hopen : ∀ name ∈ b.openNames, IsTagName name ∧ '"' ∉ name ∧ '\'' ∉ name := by
    have hsound := Builder.sound_takeAll Builder.sound_empty hbuilt
    have htags := Builder.tagNames_run (b := {}) nofun
      (Mode.named_of_emits (m := .content false) trivial) hbuilt
    intro name hname
    obtain ⟨id, hid, rfl⟩ := List.mem_map.mp hname
    have hlt := hsound.open_lt id hid
    have hno := (havoid id hlt).1
    exact ⟨htags id hlt, hno '"' (by simp), hno '\'' (by simp)⟩
  obtain ⟨hclosed, hends⟩ := Repair.read_endTags hopen
  refine ⟨b.document, ?_, hsize, hwithin⟩
  rw [Repair.content_repair, hcaptured, Repair.trimNoise_eq hlead htail]
  refine Repair.parse?_mended ⟨false, hafter⟩ hbuilt (havoid.mono (by simp)) ?_ ?_
  · exact Nat.ne_of_gt (Nat.lt_of_lt_of_eq hroot hsize.symm)
  · rw [hafter, hclosed]
    exact ⟨⟨false, rfl⟩, hends⟩

theorem parse?_repair_interrupted_value :
    let content :=
      "<hierarchy><!-- now --><node text=\"a &amp; b\"><node/></node><node text=\"c\"/></hierarchy>"
    let piece := "<hierarchy><!-- now --><node text=\"a &amp; b\"><node/></node><node text=\"c"
    let d : Document := ⟨#[
      { name := "hierarchy", attributes := [], parent := none, children := #[1, 3], depth := 0 },
      { name := "node", attributes := [⟨"text", "a & b"⟩], parent := some 0, children := #[2]
        depth := 1 },
      { name := "node", attributes := [], parent := some 1, depth := 2 },
      { name := "node", attributes := [⟨"text", "c"⟩], parent := some 0, depth := 1 }]⟩
    parse? content = some d ∧ ClosesOnly content.toList ∧ d.NamesAvoid ['&', '"', '\''] ∧
      piece.toList <+: content.toList ∧ 0 < startTags piece.toList ∧
      ∃ captured, parse? (repair piece).content = some captured ∧
        captured.size = startTags piece.toList ∧ captured.Within d := by
  intro content piece d
  have hparse : parse? content = some d := by decide +kernel +zetaReduce
  have hcloses : ClosesOnly content.toList := by decide +kernel +zetaReduce
  have hnames : d.NamesAvoid ['&', '"', '\''] := by decide +kernel +zetaReduce
  have hpiece : piece.toList <+: content.toList := by decide +kernel +zetaReduce
  have hroot : 0 < startTags piece.toList := by decide +kernel +zetaReduce
  exact ⟨hparse, hcloses, hnames, hpiece, hroot,
    parse?_repair_interrupted hparse hcloses hnames hpiece hroot⟩

end Document

end Replay.Xml
