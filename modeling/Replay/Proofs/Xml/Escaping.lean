import Replay.Proofs.Xml.Naming
import Replay.Proofs.Xml.Reference
set_option autoImplicit false

namespace Replay.Xml

/-- No element has one of the characters in its name or in a key of its attributes. -/
def Document.NamesAvoid (d : Document) (marks : List Char) : Prop :=
  ∀ id < d.size, (∀ c ∈ marks, c ∉ (d.name id).toList) ∧
    ∀ a ∈ (d.element id).attributes, ∀ c ∈ marks, c ∉ a.key.toList

instance (d : Document) (marks : List Char) : Decidable (d.NamesAvoid marks) :=
  decidable_of_iff ((List.range d.size).all fun id =>
    marks.all (!(d.name id).toList.contains ·) &&
      (d.element id).attributes.all fun a => marks.all (!a.key.toList.contains ·))
    (by simp [Document.NamesAvoid])

namespace Mode

def Keyed : Mode → Prop
  | .sectionKeyword missing | .doctypeKeyword missing => '&' ∉ missing
  | _ => True

theorem Worded.keyed {m : Mode} (h : m.Worded) : m.Keyed := by
  cases m with
  | sectionKeyword | doctypeKeyword => exact fun hmem => absurd (List.IsSuffix.subset h hmem) (by decide)
  | _ => trivial

theorem ampersand_breaks {m : Mode} (h : m.effect '&' = .goOn .broken) :
    m.yield '&' = [] ∧ m.after "&amp;".toList = m.step '&' ∧ m.emits "&amp;".toList = [] := by
  have hno : ¬ (m.IsContent ∧ '&' = '<') := fun h => absurd h.2 (by decide)
  have hstep : m.step '&' = .broken := by rw [step_of_effect hno, h]
  have hyield : m.yield '&' = [] := by rw [yield_of_effect hno, h]
  have hword : "&amp;".toList = '&' :: "amp;".toList := rfl
  rw [hword, after_cons, emits_cons, hstep, hyield]
  exact ⟨rfl, rfl, rfl⟩

/-- Outside of tags an ampersand is read as the reference that stands for it. -/
theorem ampersand_outside {m : Mode} (hkeyed : m.Keyed) (htag : ¬ m.InTag) :
    m.yield '&' = [] ∧ m.after "&amp;".toList = m.step '&' ∧ m.emits "&amp;".toList = [] := by
  cases m with
  | content seen => cases seen <;> exact ⟨rfl, rfl, rfl⟩
  | bracket => exact absurd (Or.inl rfl) htag
  | tag quote body => exact absurd (Or.inr ⟨quote, body, rfl⟩) htag
  | sectionKeyword missing => exact ampersand_breaks (sectionKeyword_breaks hkeyed)
  | doctypeKeyword missing => exact ampersand_breaks (doctypeKeyword_breaks hkeyed)
  | characterSection brackets => exact ⟨rfl, rfl, rfl⟩
  | doctype named depth => cases named <;> exact ⟨rfl, rfl, rfl⟩
  | instruction closable => cases closable <;> exact ⟨rfl, rfl, rfl⟩
  | _ => exact ⟨rfl, rfl, rfl⟩

end Mode

open Repair

/-- A text in which ampersands inside of tags begin references reads the same after escaping. -/
theorem escapeAmpersands_unseen {m : Mode} (hworded : m.Worded) {s : List Char}
    (htags : ∀ before after, s = before ++ '&' :: after → (m.after before).InTag →
      isReference after) :
    m.emits (escapeAmpersands s) = m.emits s ∧ m.after (escapeAmpersands s) = m.after s := by
  induction s generalizing m with
  | nil => exact ⟨rfl, rfl⟩
  | cons c s ih =>
    have hnext := ih (Mode.worded_step hworded c) fun before after hs htag =>
      htags (c :: before) after (by rw [hs]; rfl) htag
    have hkept : m.emits (c :: escapeAmpersands s) = m.emits (c :: s) ∧
        m.after (c :: escapeAmpersands s) = m.after (c :: s) := by
      rw [Mode.emits_cons, Mode.emits_cons, Mode.after_cons, Mode.after_cons, hnext.1, hnext.2]
      exact ⟨rfl, rfl⟩
    by_cases hc : c = '&'
    · subst hc
      obtain heq | heq := escapeAmpersands_ampersand s
      · rwa [heq]
      · by_cases htag : m.InTag
        · have href := htags [] s rfl htag
          rwa [escapeAmpersands_reference href]
        · obtain ⟨hyield, hafter, hemits⟩ := Mode.ampersand_outside hworded.keyed htag
          rw [heq, Mode.emits_append, Mode.after_append, hafter, hemits, hnext.1, hnext.2,
            Mode.emits_cons, hyield]
          exact ⟨rfl, rfl⟩
    · rwa [escapeAmpersands_cons_of_ne hc]

theorem exists_closingName (body : List Char) :
    ∃ spaces, '&' ∉ spaces ∧ body = closingName body ++ spaces := by
  obtain hspaces | ⟨name, spaces, c, hlast, hc, hspaces, rfl⟩ := closingName_cases body
  · rw [closingName_of_spaces hspaces]
    exact ⟨[], List.not_mem_nil, (List.append_nil body).symm⟩
  · rw [closingName_append hlast hc hspaces]
    exact ⟨spaces, Attribute.ampersand_notMem_of_isSpace hspaces, rfl⟩

/-- In the tags of a document every ampersand begins a reference, unless a name or a key has one. -/
theorem referenced_of_holds {d : Document} (hnames : d.NamesAvoid ['&']) {body : List Char}
    (h : Builder.Holds d (.ofTag body)) : Referenced body := by
  have hname {id : Nat} (hid : id < d.size) {name : List Char}
      (heq : d.name id = String.ofList name) : '&' ∉ name := by
    have havoid := (hnames id hid).1 '&' List.mem_cons_self
    rwa [heq, String.toList_ofList] at havoid
  obtain ⟨rest, rfl, hof⟩ | ⟨name, attributes, slash, rfl, -, hslash, hof⟩ :=
    Markup.ofTag_cases body
  · rw [hof] at h
    obtain ⟨id, hid, heq⟩ := h
    obtain ⟨spaces, hspaces, hrest⟩ := exists_closingName rest
    refine referenced_of_notMem ?_
    rw [hrest]
    rintro (_ | ⟨_, hmem⟩)
    obtain hmem | hmem := List.mem_append.mp hmem
    · exact hname hid heq hmem
    · exact hspaces hmem
  · have hread : ∃ id < d.size, d.name id = String.ofList name ∧
        Attribute.read? attributes = some (d.element id).attributes := by
      obtain hof | hof := hof
      · rwa [hof] at h
      · rwa [hof] at h
    obtain ⟨id, hid, heq, hattributes⟩ := hread
    have hkeys := fun a ha => (hnames id hid).2 a ha '&' List.mem_cons_self
    have hslash : '&' ∉ slash := by obtain rfl | rfl := hslash <;> decide
    exact (referenced_of_notMem (hname hid heq)).append
      ((Attribute.referenced_of_read hattributes hkeys).append (referenced_of_notMem hslash))

/-- Inside a tag that is taken an ampersand begins a reference. -/
theorem isReference_in_tag {m : Mode} {before after : List Char} {d : Document}
    (hnames : d.NamesAvoid ['&']) (hrest : (m.after (before ++ '&' :: after)).IsContent)
    (hholds : ∀ mk ∈ m.emits (before ++ '&' :: after), Builder.Holds d mk)
    (htag : (m.after before).InTag) : isReference after := by
  have hstep : ∃ quote body, (m.after before).step '&' = .tag quote ('&' :: body) := by
    obtain hb | ⟨quote, body, hb⟩ := htag
    · exact ⟨none, [], by rw [hb]; rfl⟩
    · exact ⟨_, body, hb ▸ (Mode.tag_stays body fun _ => by decide).1⟩
  obtain ⟨quote, body, hstep⟩ := hstep
  rw [Mode.after_append, Mode.after_cons, hstep] at hrest
  obtain ⟨inner, rest, rfl, hemits⟩ := Mode.emits_tag hrest
  have hmem : Markup.ofTag (('&' :: body).reverse ++ inner) ∈
      m.emits (before ++ '&' :: (inner ++ '>' :: rest)) := by
    rw [Mode.emits_append, Mode.emits_cons, hstep, hemits]
    simp
  have hbody := referenced_of_holds hnames (hholds _ hmem)
  rw [List.reverse_cons, List.append_assoc] at hbody
  exact isReference_append hbody.at _

theorem emits_escapeAmpersands {s : List Char} {d : Document} (hnames : d.NamesAvoid ['&'])
    (hrest : ((Mode.content false).after s).IsContent)
    (hholds : ∀ m ∈ (Mode.content false).emits s, Builder.Holds d m) :
    (Mode.content false).emits (escapeAmpersands s) = (Mode.content false).emits s ∧
      (Mode.content false).after (escapeAmpersands s) = (Mode.content false).after s := by
  have hworded : (Mode.content false).Worded := trivial
  refine escapeAmpersands_unseen hworded ?_
  rintro before after rfl htag
  exact isReference_in_tag hnames hrest hholds htag

end Replay.Xml
