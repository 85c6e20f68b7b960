import Replay.Proofs.Validation.Validity
import Replay.Proofs.Xml.Writing
import Replay.Recovery.Synthetic
set_option autoImplicit false

namespace Replay.Recovery

open Xml

namespace Synthetic

def attributes (text resourceId className app contentDesc clickable bounds : String) :
    List Attribute :=
  [⟨"index", "0"⟩, ⟨"text", text⟩, ⟨"resource-id", resourceId⟩, ⟨"class", className⟩,
    ⟨"package", app⟩, ⟨"content-desc", contentDesc⟩, ⟨"clickable", clickable⟩,
    ⟨"enabled", "true"⟩, ⟨"bounds", bounds⟩]

theorem toList_setting (key value : String) :
    (setting key value).toList = Attribute.written ⟨key, value⟩ := by
  simp [setting, Attribute.written]

theorem toList_settings (text resourceId className app contentDesc clickable bounds : String) :
    (settings text resourceId className app contentDesc clickable bounds).toList =
      (attributes text resourceId className app contentDesc clickable bounds).flatMap
        Attribute.written := by
  simp only [settings, String.toList_append, toList_setting, attributes, List.flatMap_cons,
    List.flatMap_nil, List.append_nil, List.append_assoc]

theorem plain_attributes (text resourceId className app contentDesc clickable bounds : String) :
    (∀ a ∈ attributes text resourceId className app contentDesc clickable bounds,
      IsPlainName a.key.toList) ∧
    ((attributes text resourceId className app contentDesc clickable bounds).map (·.key)).Nodup := by
  simp only [attributes, List.forall_mem_cons, List.map_cons, List.map_nil]
  decide +kernel

def rootAttributes : List Attribute := [⟨"rotation", "0"⟩]

def frameAttributes (app : String) (screen : ScreenSize) : List Attribute :=
  attributes "" "" "android.widget.FrameLayout" app "" "false"
    ("[0,0][" ++ toString screen.width ++ "," ++ toString screen.height ++ "]")

def targetAttributes (l : Locator) (app : String) : List Attribute :=
  attributes (l.text.getD "") (l.resourceId.getD "") (l.className.getD "android.widget.TextView") app
    (l.contentDesc.getD "") "true" (l.bounds.getD defaultBounds).render

def pieces (step : Step) (app : String) (screen : ScreenSize) : List Piece :=
  [.opening "hierarchy" rootAttributes, .space "\n  ".toList,
    .opening "node" (frameAttributes app screen), .space "\n    ".toList,
    .void "node" (targetAttributes step.locator app), .space "\n  ".toList,
    .closing "node", .space "\n".toList, .closing "hierarchy", .space "\n".toList]

theorem plain_pieces (step : Step) (app : String) (screen : ScreenSize) :
    ∀ p ∈ pieces step app screen, p.Plain := by
  have hframe : ∀ a ∈ frameAttributes app screen, IsPlainName a.key.toList :=
    (plain_attributes ..).1
  have htarget : ∀ a ∈ targetAttributes step.locator app, IsPlainName a.key.toList :=
    (plain_attributes ..).1
  have hspace {s : List Char} (hs : s.all isSpace) : ∀ c ∈ s, isSpace c := List.all_eq_true.mp hs
  have hhierarchy : IsPlainName "hierarchy".toList := by decide +kernel
  have hnode : IsPlainName "node".toList := by decide +kernel
  simp only [pieces, List.forall_mem_cons, Piece.Plain]
  exact ⟨⟨hhierarchy, by decide +kernel⟩, hspace (by decide +kernel), ⟨hnode, hframe⟩,
    hspace (by decide +kernel), ⟨hnode, htarget⟩, hspace (by decide +kernel), hnode,
    hspace (by decide +kernel), hhierarchy, hspace (by decide +kernel), nofun⟩

theorem toList_syntheticHierarchy (step : Step) (app : String) (screen : ScreenSize) :
    (syntheticHierarchy step app screen).toList =
      (Repair.declaration.toList ++ ['\n']) ++ (pieces step app screen).flatMap Piece.text := by
  have hframe : (frame app screen).toList = (frameAttributes app screen).flatMap Attribute.written :=
    toList_settings ..
  have htarget : (target step.locator app).toList =
      (targetAttributes step.locator app).flatMap Attribute.written := toList_settings ..
  simp only [syntheticHierarchy, String.toList_append, hframe, htarget, pieces, List.flatMap_cons,
    List.flatMap_nil, Piece.text, List.append_assoc]
  simp [rootAttributes, Attribute.written, Repair.endTag, Entity.escape, Entity.escapeChar]

def document (step : Step) (app : String) (screen : ScreenSize) : Document where
  elements :=
    #[{ name := "hierarchy", attributes := rootAttributes, parent := none, children := #[1]
        depth := 0 },
      { name := "node", attributes := frameAttributes app screen, parent := some 0
        children := #[2], depth := 1 },
      { name := "node", attributes := targetAttributes step.locator app, parent := some 1
        depth := 2 }]

theorem run_pieces (step : Step) (app : String) (screen : ScreenSize) :
    ((pieces step app screen).flatMap Piece.markup).foldlM Builder.take {} =
      some ⟨(document step app screen).elements, []⟩ := by
  have hroot : Attribute.read? (rootAttributes.flatMap Attribute.written) = some rootAttributes :=
    Attribute.read?_written (by decide +kernel) (by decide)
  have hframe : Attribute.read? ((frameAttributes app screen).flatMap Attribute.written) =
      some (frameAttributes app screen) :=
    Attribute.read?_written (plain_attributes ..).1 (plain_attributes ..).2
  have htarget : Attribute.read? ((targetAttributes step.locator app).flatMap Attribute.written) =
      some (targetAttributes step.locator app) :=
    Attribute.read?_written (plain_attributes ..).1 (plain_attributes ..).2
  simp only [pieces, List.flatMap_cons, List.flatMap_nil, Piece.markup, List.nil_append,
    List.cons_append, List.foldlM_cons]
  rw [Builder.take_opening (fun _ => rfl) hroot, Option.bind_eq_bind, Option.bind_some,
    Builder.take_opening (fun hopen => absurd hopen (List.cons_ne_nil _ _)) hframe,
    Option.bind_some, Builder.take_void (fun hopen => absurd hopen (List.cons_ne_nil _ _)) htarget,
    Option.bind_some]
  rfl

end Synthetic

open Synthetic

/-- Whatever the locator, the app and the screen are, what is generated is a document. -/
theorem parse?_syntheticHierarchy (step : Step) (app : String) (screen : ScreenSize) :
    Document.parse? (syntheticHierarchy step app screen) = some (document step app screen) := by
  have hdeclaration : (Mode.content false).after (Repair.declaration.toList ++ ['\n']) =
        .content false ∧
      (Mode.content false).emits (Repair.declaration.toList ++ ['\n']) = [] := by
    decide +kernel
  obtain ⟨hafter, hemits⟩ := Piece.scan_pieces (plain_pieces step app screen)
  have hfrom : fromMarkup (syntheticHierarchy step app screen).toList =
      (Repair.declaration.toList ++ ['\n']) ++ (pieces step app screen).flatMap Piece.text := by
    rw [toList_syntheticHierarchy]
    rfl
  rw [Document.parse?_iff, hfrom, Mode.after_append, Mode.emits_append, hdeclaration.1,
    hdeclaration.2, hafter, hemits]
  exact ⟨⟨false, rfl⟩, _, run_pieces step app screen, rfl, nofun, rfl⟩

theorem isValid_of_synthetic {limits : Limits} {s : Snapshot} {step : Step} {app : String}
    {screen : ScreenSize} (hcontent : s.content = syntheticHierarchy step app screen)
    (hmin : max limits.minContentLength limits.minSizeBytes ≤ s.size)
    (hmax : s.size ≤ limits.maxSizeBytes) (now : Instant) :
    (validateSnapshot limits now s).isValid := by
  have hdocument : (Examination.of limits now s).document = some (document step app screen) := by
    rw [← parse?_syntheticHierarchy, ← hcontent]
    rfl
  have hhead : (s.content.toList.dropWhile Text.isBlank).head? = some '<' := by
    rw [hcontent, toList_syntheticHierarchy]
    rfl
  rw [validateSnapshot, Examination.isValid_report]
  intro c hc
  cases c with
  | content =>
    simp only [Examination.passes, Examination.contentPasses, Bool.and_eq_true, decide_eq_true_eq]
    exact ⟨beq_iff_eq.mpr hhead, Nat.le_trans (Nat.le_max_left _ _) hmin⟩
  | size =>
    simp only [Examination.passes, Bool.and_eq_true, decide_eq_true_eq]
    exact ⟨Nat.le_trans (Nat.le_max_right _ _) hmin, hmax⟩
  | format =>
    rw [Examination.passes, hdocument]
    simp [Document.hasHierarchyMarkers, document]
  | structured =>
    rw [Examination.passes, hdocument]
    simp [Examination.looksLikeHierarchy, document, frameAttributes, attributes]
  | device | page | timestamp => cases hc

end Replay.Recovery
