import Replay.Proofs.Files.Tree
import Replay.Proofs.Json.Depth
import Replay.Proofs.Recovery.Portability
import Replay.Recovery.Artifact
set_option autoImplicit false

namespace Replay.Recovery

open Wire

namespace Report

section Files

variable {r : Report} {directory run : String} {t after : FileTree}

theorem save_eq_ok
    (h : (r.save directory run : StateM FileTree (Except Fault Unit)) t = (.ok (), after)) :
    ∃ t₁ t₂ : FileTree, t₁.write (textPath directory run) r.fileText = some t₂ ∧
      t₂.write (digestPath directory run) (ContentHash.of r.fileText).text = some after := by
  obtain ⟨t₁, -, h⟩ := FileTree.of_attempt h
  obtain ⟨t₂, htext, h⟩ := FileTree.of_attempt h
  obtain ⟨t₃, hdigest, h⟩ := FileTree.of_attempt h
  obtain rfl := (Prod.mk.inj h).2
  exact ⟨t₁, t₂, htext, hdigest⟩

theorem load_eq {text kept : String} (htext : t.read (textPath directory run) = some text)
    (hkept : t.read (digestPath directory run) = some kept) :
    (load directory run : StateM FileTree (Except Fault Report)) t = (ofFileText text kept, t) := by
  simp only [load, Files.read, bind, StateT.bind, htext, hkept]
  rfl

theorem locate_textPath_ne {l : Location} (h : t.locate (digestPath directory run) = some l) :
    t.locate (textPath directory run) ≠ some l := by
  have hdigestName : Files.IsName "recovery.digest" := ⟨by decide, by decide, by decide⟩
  have htextName : Files.IsName "recovery.json" := ⟨by decide, by decide, by decide⟩
  intro htext
  have hnames := (FileTree.locate_join hdigestName h).symm.trans
    (FileTree.locate_join htextName htext)
  exact absurd hnames (by decide)

/-- What was saved is looked for in the text that was written, beside its digest. -/
theorem load_of_save
    (h : (r.save directory run : StateM FileTree (Except Fault Unit)) t = (.ok (), after)) :
    (load directory run : StateM FileTree (Except Fault Report)) after =
      (ofFileText r.fileText (ContentHash.of r.fileText).text, after) := by
  obtain ⟨t₁, t₂, htext, hdigest⟩ := save_eq_ok h
  have hne : t₂.locate (textPath directory run) ≠ t₂.locate (digestPath directory run) := by
    obtain ⟨l, hl, -⟩ := FileTree.write_eq_some hdigest
    rw [hl]
    exact locate_textPath_ne hl
  refine load_eq ?_ (FileTree.read_of_write hdigest)
  rw [FileTree.read_of_write_of_ne hdigest hne, FileTree.read_of_write htext]

end Files

theorem ofFileText_digest (text : String) : ofFileText text (ContentHash.of text).text =
    match Json.parse? text >>= ofJson? with
    | some r => .ok r
    | none => .error .report := by
  rw [ofFileText, ContentHash.trimmed_of]
  exact if_neg (not_not_intro rfl)

section Texts

variable {r : Report} (hint : r.recoveredScript.Integral)
include hint

theorem ofFileText_fileText (h : r.Portable 119) :
    ofFileText r.fileText (ContentHash.of r.fileText).text = .ok r := by
  have hcarries : Carries Json.maxDepth toJson ofJson? r := carries h hint
  have hparse : Json.parse? r.fileText = some r.toJson.sorted :=
    Json.parse?_render Json.spaced_pretty hcarries.plain.fits hcarries.plain.integral
  rw [ofFileText_digest, hparse, Option.bind_eq_bind, Option.bind_some, hcarries.read_sorted]

theorem parse?_fileText_deep (h : r.Portable 120) (hdeep : ¬ r.recoveredScript.Portable 120) :
    Json.parse? r.fileText = none := by
  have hcarries : Carries 128 toJson ofJson? r := carries h hint
  refine Option.eq_none_iff_forall_ne_some.mpr fun j hj => ?_
  have hwhole : j = r.toJson.sorted :=
    Json.eq_sorted_of_parse_render Json.spaced_pretty hcarries.plain.fits
      hcarries.plain.integral hj
  have hsame : ofJson? j = some r := hwhole ▸ hcarries.read_sorted
  exact hdeep (portable_recoveredScript_of_json (Json.result_of_parse hj) hsame)

theorem ofFileText_deep (h : r.Portable 120) (hdeep : ¬ r.recoveredScript.Portable 120) :
    ofFileText r.fileText (ContentHash.of r.fileText).text = .error .report := by
  rw [ofFileText_digest, parse?_fileText_deep hint h hdeep]
  rfl

end Texts

end Report

namespace Engine

theorem integral_recoveredScript (e : Engine) (cancelled : Progress → Bool) {script : Script}
    (hpool : script.pool = none) (hint : script.Integral) :
    (e.run cancelled script).1.recoveredScript.Integral := by
  have hparams := e.params_recoveredScript cancelled script
  have hmetadata := e.metadata_recoveredScript cancelled script
  rw [Script.restore_of_pool hpool] at hparams hmetadata
  exact hint.of_frame hparams hmetadata

/-- A report that was saved is read back exactly if the script that was imported nests its values at
most 126 levels deep, one less than a text may; else it is taken for no report. -/
theorem load_after_save {text : String} {script : Script}
    (himport : Script.importText text = .ok script) (hint : script.Integral)
    (hsize : 8 * script.steps.length < UInt64.size) {e : Engine} (he : e.Portable)
    (cancelled : Progress → Bool) {directory run : String} {t after : FileTree}
    (hsave : ((e.run cancelled script).1.save directory run :
      StateM FileTree (Except Fault Unit)) t = (.ok (), after)) :
    (script.toJson.Fits 126 →
      (Report.load directory run : StateM FileTree (Except Fault Report)) after =
        (.ok (e.run cancelled script).1, after)) ∧
    (¬ script.toJson.Fits 126 →
      (Report.load directory run : StateM FileTree (Except Fault Report)) after =
        (.error .report, after)) := by
  have hportable : script.Portable 121 := Script.portable_of_importText himport
  have hpool := Script.pool_of_importText himport
  have hrecovered := e.integral_recoveredScript cancelled hpool hint
  have hlevels : script.toJson.Fits 126 ↔ script.Portable 120 :=
    Script.fits_iff_portable hportable hint
  rw [Report.load_of_save hsave, hlevels]
  constructor
  · intro hfits
    rw [Report.ofFileText_fileText hrecovered (portable_run he hfits hsize cancelled)]
  · intro hdeep
    rw [← portable_recoveredScript_iff he hportable cancelled hpool] at hdeep
    rw [Report.ofFileText_deep hrecovered (portable_run he hportable hsize cancelled) hdeep]

def nest : Nat → Json
  | 0 => .null
  | n + 1 => .array [nest n]

theorem fits_nest {n depth : Nat} : (nest n).Fits depth ↔ n ≤ depth := by
  induction n generalizing depth with
  | zero => exact ⟨fun _ => Nat.zero_le depth, fun _ => .null⟩
  | succ n ih =>
    constructor
    · intro h
      cases h with
      | array h => exact Nat.succ_le_succ (ih.mp (h _ List.mem_cons_self))
    · intro h
      obtain _ | depth := depth
      · cases h
      · exact .array (List.forall_mem_singleton.mpr (ih.mpr (Nat.le_of_succ_le_succ h)))

theorem inOrder_nest (n : Nat) : (nest n).InOrder := by
  induction n with
  | zero => exact .null
  | succ n ih => exact .array (List.forall_mem_singleton.mpr ih)

theorem integral_nest (n : Nat) : (nest n).Integral := by
  induction n with
  | zero => exact .null
  | succ n ih => exact .array (List.forall_mem_singleton.mpr ih)

def nested (n : Nat) : Script where
  steps := [{ id := "open", params := [("tree", nest n)] }]

theorem portable_nested {n depth : Nat} : (nested n).Portable depth ↔ n ≤ depth + 2 := by
  constructor
  · intro h
    have hparams := (h.steps _ List.mem_cons_self).params.1
    cases hparams with
    | object hparams => exact fits_nest.mp (hparams _ List.mem_cons_self)
  · intro h
    have hparams : (Json.object [("tree", nest n)]).Result (depth + 3) :=
      ⟨.object (List.forall_mem_singleton.mpr (fits_nest.mpr h)),
        .object (List.pairwise_singleton ..) (List.forall_mem_singleton.mpr (inOrder_nest n))⟩
    exact ⟨List.forall_mem_singleton.mpr ⟨hparams, nofun⟩, nofun, nofun⟩

theorem integral_nested (n : Nat) : (nested n).Integral where
  steps := List.forall_mem_singleton.mpr (.object (List.forall_mem_singleton.mpr (integral_nest n)))
  metadata := nofun

theorem importText_nested {n : Nat} (h : n ≤ 123) :
    Script.importText (nested n).toJson.pretty = .ok (nested n) := by
  rw [Script.importText, Script.ofText_pretty (portable_nested.mpr h) (integral_nested n)]
  rfl

def bareEngine : Engine where
  chain := .standard [] true
  now := ⟨0, 0⟩

theorem portable_bareEngine : bareEngine.Portable := by
  have hnow : Instant.Proper ⟨0, 0⟩ := ⟨by decide, by decide, by decide⟩
  exact ⟨Chain.portable_standard (fun _ h => absurd h List.not_mem_nil) true, nofun, hnow,
    fun _ => hnow⟩

def nestedReport (n : Nat) : Report := (bareEngine.run (fun _ => false) (nested n)).1

theorem save_nestedReport (n : Nat) : ∃ after, ((nestedReport n).save "artifacts" "run-1" :
    StateM FileTree (Except Fault Unit)) {} = (.ok (), after) := ⟨_, rfl⟩

theorem load_after_save_nested : ∃ after,
    Script.importText (nested 122).toJson.pretty = .ok (nested 122) ∧ (nested 122).Integral ∧
      ((nestedReport 122).save "artifacts" "run-1" : StateM FileTree (Except Fault Unit)) {} =
        (.ok (), after) ∧
      (nested 122).toJson.Fits 126 ∧
      (Report.load "artifacts" "run-1" : StateM FileTree (Except Fault Report)) after =
        (.ok (nestedReport 122), after) := by
  obtain ⟨after, hsave⟩ := save_nestedReport 122
  have himport := importText_nested (n := 122) (by decide)
  have hint := integral_nested 122
  have hfits : (nested 122).toJson.Fits 126 :=
    (Script.fits_iff_portable (portable_nested.mpr (Nat.le_refl _)) hint).mpr
      (portable_nested.mpr (by decide))
  have hload := (load_after_save himport hint (by decide) portable_bareEngine (fun _ => false)
    hsave).1 hfits
  exact ⟨after, himport, hint, hsave, hfits, hload⟩

/-- A script that nests as deep as a text may: it is imported and its report is saved, but the
report is not read back, since the text that was written is no longer one that is read. -/
theorem not_loaded_brimful : ∃ after,
    Script.importText (nested 123).toJson.pretty = .ok (nested 123) ∧ (nested 123).Integral ∧
      ((nestedReport 123).save "artifacts" "run-1" : StateM FileTree (Except Fault Unit)) {} =
        (.ok (), after) ∧
      (Report.load "artifacts" "run-1" : StateM FileTree (Except Fault Report)) after =
        (.error .report, after) ∧
      Script.importText (nestedReport 123).fileText = .error .notJson := by
  obtain ⟨after, hsave⟩ := save_nestedReport 123
  have himport := importText_nested (n := 123) (by decide)
  have hint := integral_nested 123
  have hportable : (nested 123).Portable 121 := portable_nested.mpr (by decide)
  have hdeep : ¬ (nestedReport 123).recoveredScript.Portable 120 := by
    rw [nestedReport, portable_recoveredScript_iff portable_bareEngine hportable _ rfl,
      portable_nested]
    decide
  have hreport : (nestedReport 123).Portable 120 :=
    portable_run portable_bareEngine hportable (by decide) fun _ => false
  have hrecovered : (nestedReport 123).recoveredScript.Integral :=
    integral_recoveredScript bareEngine (fun _ => false) rfl hint
  refine ⟨after, himport, hint, hsave, ?_, ?_⟩
  · rw [Report.load_of_save hsave, Report.ofFileText_deep hrecovered hreport hdeep]
  · rw [Script.importText, Script.ofText, Report.parse?_fileText_deep hrecovered hreport hdeep]
    rfl

end Engine

end Replay.Recovery
