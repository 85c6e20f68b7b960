import Replay.Proofs.Exchange
import Replay.Proofs.Wire.Alteration
set_option autoImplicit false

namespace Replay

def SameLetter (c d : Char) : Prop :=
  c = d ∨ c.isUpper ∧ d = c.toLower ∨ d.isUpper ∧ c = d.toLower

instance : DecidableRel SameLetter := fun _ _ => inferInstanceAs (Decidable (_ ∨ _))

def SameLetters (s t : String) : Prop := List.Forall₂ SameLetter s.toList t.toList

theorem SameLetter.toLower_eq {c d : Char} (h : SameLetter c d) : c.toLower = d.toLower := by
  obtain rfl | ⟨-, rfl⟩ | ⟨-, rfl⟩ := h
  · rfl
  · simp
  · simp

theorem ContentHash.ofText_eq {s t : String} (h : SameLetters s t) : ofText t = ofText s := by
  have hlower : s.toList.map Char.toLower = t.toList.map Char.toLower :=
    map_eq_of_forall₂ (h.imp fun _ _ => SameLetter.toLower_eq)
  rw [ofText, ofText, Text.asciiLower, Text.asciiLower, hlower]

namespace Wire

inductive SameText : Json → Json → Prop where
  | string {s t : String} (h : SameLetters s t) : SameText (.string s) (.string t)

inductive SameEntries : Json → Json → Prop where
  | object {ms ns : Json.Members}
      (h : List.Forall₂ (fun m n => SameLetters m.1 n.1 ∧ n.2 = m.2) ms ns) :
      SameEntries (.object ms) (.object ns)

theorem sameRead_hash {x y : Json} (h : SameText x y) : SameRead ContentHash.ofJson? x y := by
  obtain ⟨hletters⟩ := h
  exact ⟨congrArg some (ContentHash.ofText_eq hletters), ⟨nofun, nofun⟩⟩

theorem keepsPlain_sameText : KeepsPlain SameText := by
  rintro depth _ _ ⟨-⟩ -
  exact .string _

theorem keepsPlain_sameEntries : KeepsPlain SameEntries := by
  rintro depth _ _ ⟨hentries⟩ hplain
  obtain ⟨inner, rfl, hms⟩ := hplain.exists_members
  have hpairs := (List.forall₂_and_left _ _).mpr ⟨hms, hentries⟩
  exact .object (forall_right_of_forall₂ hpairs fun m n ⟨hm, _, hsame⟩ => hsame ▸ hm)

end Wire

open Wire

def Snapshot.recasable : Altered := [("hash", SameText)]

theorem Snapshot.sameRead_recased {x y : Json} (h : Fieldwise recasable x y) :
    SameRead ofJson? x y := by
  cases h with
  | @object ms ns hms =>
    refine sameRead_record (fun _ => rfl) ?_
    have hhash : recasable.ReadAlike ms "hash" ContentHash.ofJson? :=
      readAlike_of_mem (by decide) List.mem_cons_self fun _ _ _ => sameRead_hash
    rw [defaulted_altered hms (readAlike_of_notMem (by decide)), defaulted_altered hms hhash,
      optional_altered hms (readAlike_of_notMem (by decide)),
      defaulted_altered hms (readAlike_of_notMem (by decide)),
      defaulted_altered hms (readAlike_of_notMem (by decide)),
      defaulted_altered hms (readAlike_of_notMem (by decide)),
      optional_altered hms (readAlike_of_notMem (by decide))]

def Step.recasable : Altered := [("snapshot", Fieldwise Snapshot.recasable)]

theorem Step.sameRead_recased {x y : Json} (h : Fieldwise recasable x y) :
    SameRead ofJson? x y := by
  cases h with
  | @object ms ns hms =>
    refine sameRead_record (fun _ => rfl) ?_
    have hsnapshot : recasable.ReadAlike ms "snapshot" Snapshot.ofJson? :=
      readAlike_of_mem (by decide) List.mem_cons_self fun _ _ _ => Snapshot.sameRead_recased
    rw [required_altered hms (readAlike_of_notMem (by decide)),
      optional_altered hms (readAlike_of_notMem (by decide)),
      optional_altered hms (readAlike_of_notMem (by decide)),
      defaulted_altered hms (readAlike_of_notMem (by decide)),
      defaulted_altered hms (readAlike_of_notMem (by decide)), optional_altered hms hsnapshot]

namespace Pool

def readMember? : String × Json → Option (ContentHash × PoolEntry)
  | (key, j) => do return (ContentHash.ofText key, ← PoolEntry.ofJson? j)

theorem ofJson?_object (members : Json.Members) : ofJson? (.object members) =
    ((Ordered.ofList members).mapM readMember?).map Ordered.ofList := by
  rw [ofJson?, Option.map_eq_bind]
  rfl

theorem hash_readMember? {m : String × Json} {pair : ContentHash × PoolEntry}
    (h : readMember? m = some pair) : ContentHash.ofText m.1 = pair.1 := by
  obtain ⟨e, -, heq⟩ := Option.bind_eq_some_iff.mp h
  exact congrArg Prod.fst (Option.some.inj heq)

theorem forall₂_readMember? {p : Pool} (hp : p.Portable) {ns : Json.Members}
    (h : List.Forall₂ (fun m n => SameLetters m.1 n.1 ∧ n.2 = m.2)
      (p.map fun (hash, e) => (hash.text, e.toJson)) ns) :
    List.Forall₂ (fun m pair => readMember? m = some pair) (Json.sortedMembers ns) p := by
  have hpairs := (List.forall₂_and_left p ns).mpr
    ⟨fun pair hpair => hpair, List.forall₂_map_left_iff.mp h⟩
  rw [Json.sortedMembers_eq, List.forall₂_map_left_iff]
  refine hpairs.flip.imp fun n pair hn => ?_
  obtain ⟨key, j⟩ := n
  obtain ⟨hmem, hkey, rfl⟩ := hn
  have he : PoolEntry.ofJson? pair.2.toJson.sorted = some pair.2 :=
    (PoolEntry.carries (hp.entry pair hmem)).read_sorted
  have hhash : ContentHash.ofText key = pair.1 :=
    (ContentHash.ofText_eq hkey).trans (hp.isLower pair hmem)
  simp [readMember?, he, hhash]

/-- The pool is read back whatever letter cases its keys are in. -/
theorem sameRead_recased {p : Pool} (hp : p.Portable) {y : Json} (h : SameEntries p.toJson y) :
    SameRead ofJson? p.toJson y := by
  cases h with
  | @object _ ns hns =>
    have hread := forall₂_readMember? hp hns
    -- Keys that are read as different hashes are different.
    have hkeys : ((Json.sortedMembers ns).map Prod.fst).Nodup := by
      have hhashes : (Json.sortedMembers ns).map (fun m => ContentHash.ofText m.1) =
          p.map Prod.fst := map_eq_of_forall₂ (hread.imp fun m pair h => hash_readMember? h)
      refine List.Nodup.of_map ContentHash.ofText ?_
      rw [List.map_map]
      exact hhashes ▸ hp.ascending.nodup_keys
    obtain ⟨entries, hentries, hperm⟩ :=
      List.perm_comp_forall₂ (Ordered.perm_ofList hkeys) hread
    have hmapM : (Ordered.ofList (Json.sortedMembers ns)).mapM readMember? = some entries :=
      mapM_eq_some.mpr (map_eq_of_forall₂ hentries)
    refine ⟨?_, nofun, nofun⟩
    rw [(carries hp).read_sorted, Json.sorted, ofJson?_object,
      Ordered.ofList_of_ascending (Ordered.ascending_ofList _), hmapM, Option.map_some,
      Ordered.ofList_of_perm hp.ascending hperm]

end Pool

namespace Script

def recasable : Altered :=
  [("steps", Each (Fieldwise Step.recasable)), ("snapshotPool", SameEntries)]

/-- The same value for a script, but for the letter cases of the keys of the pool and of the hashes
of the snapshots in the steps. -/
def Recased (x y : Json) : Prop := Fieldwise recasable x y

theorem exists_members (s : Script) : ∃ ms, s.toJson = .object ms ∧
    ∀ x, ("snapshotPool", x) ∈ ms → ∃ p, s.pool = some p ∧ x = p.toJson := by
  refine ⟨_, rfl, fun x hx => ?_⟩
  simpa [put, mem_putSome] using hx

section Reading

variable {s : Script} {j : Json} (h : Recased s.toJson j)
include h

theorem sameRead_recased (hpool : ∀ p, s.pool = some p → p.Portable) :
    SameRead ofJson? s.toJson j := by
  obtain ⟨ms, hwritten, hmem⟩ := s.exists_members
  rw [hwritten] at h ⊢
  cases h with
  | @object _ ns hms =>
    refine sameRead_record (fun _ => rfl) ?_
    have hsteps : recasable.ReadAlike ms "steps" (readList Step.ofJson?) :=
      readAlike_of_mem (by decide) List.mem_cons_self fun _ _ _ =>
        sameRead_list fun _ _ => Step.sameRead_recased
    have hentries : recasable.ReadAlike ms "snapshotPool" Pool.ofJson? := by
      refine readAlike_of_mem (by decide) (List.mem_cons_of_mem _ List.mem_cons_self) ?_
      intro x y hx hxy
      obtain ⟨p, hp, rfl⟩ := hmem x hx
      exact Pool.sameRead_recased (hpool p hp) hxy
    rw [defaulted_altered hms (readAlike_of_notMem (by decide)),
      optional_altered hms (readAlike_of_notMem (by decide)), required_altered hms hsteps,
      optional_altered hms hentries, optional_altered hms (readAlike_of_notMem (by decide))]

theorem steps_recased : ∃ items, j.sorted.get? "steps" = some (.array items) := by
  have hwritten := s.get?_steps
  rw [toJson] at h hwritten
  cases h with
  | @object _ ns hms =>
    obtain heq | ⟨R, x, y, hR, -, hxy, -, hns⟩ := found_altered hms "steps"
    · exact ⟨_, heq.trans hwritten⟩
    · obtain rfl : R = Each (Fieldwise Step.recasable) := by simpa [recasable] using hR
      obtain ⟨hitems⟩ := hxy
      exact ⟨_, hns⟩

theorem ofText_recased (hs : s.Portable 121) (hint : s.Integral) {text : String}
    (hparse : Json.parse? text = some j.sorted) : ofText text = .ok s := by
  obtain ⟨items, hsteps⟩ := steps_recased h
  have hread : ofJson? j.sorted = some s := by
    rw [(sameRead_recased h hs.pool).read_eq, (parse?_pretty hs hint).2]
  rw [ofText, hparse]
  dsimp only
  rw [hsteps, hread]

theorem plain_recased {depth : Nat} (hs : s.toJson.Plain depth) : j.Plain depth := by
  have hsnapshot : KeepsPlain (Fieldwise Snapshot.recasable) :=
    keepsPlain_fieldwise (List.forall_mem_singleton.mpr keepsPlain_sameText)
  have hstep : KeepsPlain (Fieldwise Step.recasable) :=
    keepsPlain_fieldwise (List.forall_mem_singleton.mpr hsnapshot)
  have hscript : KeepsPlain (Fieldwise recasable) :=
    keepsPlain_fieldwise (List.forall_mem_cons.mpr
      ⟨keepsPlain_each hstep, List.forall_mem_singleton.mpr keepsPlain_sameEntries⟩)
  exact hscript h hs

end Reading

/-- A script that was imported and exported is imported from every value that differs from the
exported one only in the letter cases of pooled keys and of hashes, each changed for itself, just as
from the exported one. -/
theorem importText_recased {text : String} {s : Script} (h : importText text = .ok s)
    (hint : s.Integral) {j : Json} (hj : Recased s.optimize.toJson j) :
    importText s.exportText = .ok s.optimize.restore ∧
      (∀ other, Json.parse? other = some j.sorted → importText other = importText s.exportText) ∧
      ∀ style : Json.Style, style.Spaced →
        importText (j.render style) = importText s.exportText := by
  have hs : s.optimize.Portable 121 := (portable_of_importText h).optimize
  have hexported : importText s.exportText = .ok s.optimize.restore := by
    rw [importText, exportText, ofText_pretty hs hint.optimize]
    rfl
  have hother : ∀ other, Json.parse? other = some j.sorted →
      importText other = importText s.exportText := by
    intro other hparse
    rw [hexported, importText, ofText_recased hj hs hint.optimize hparse]
    rfl
  refine ⟨hexported, hother, fun style hstyle => hother _ ?_⟩
  have hplain : j.Plain Json.maxDepth := plain_recased hj (carries hs hint.optimize).plain
  exact Json.parse?_render hstyle hplain.fits hplain.integral

def tapText : String :=
  "\x7b\"steps\":[\x7b\"id\":\"tap\",\"snapshot\":\x7b\"content\":\"<a/>\"\x7d\x7d]\x7d"

def tap : Script where
  steps := [{ id := "tap", snapshot := some { content := "<a/>" } }]

def tapJson (key hash : String) : Json :=
  .object
    [("name", .string ""),
      ("steps", .array [.object
        [("id", .string "tap"), ("locator", .object []),
          ("snapshot", .object
            [("hash", .string hash), ("device", ({} : Device).toJson),
              ("page", ({} : Page).toJson)])]]),
      ("snapshotPool", .object [(key, (⟨"<a/>", none, 1⟩ : PoolEntry).toJson)])]

theorem recased_tapJson {digest key hash : String} (hkey : SameLetters digest key)
    (hhash : SameLetters digest hash) : Recased (tapJson digest digest) (tapJson key hash) := by
  have hsame (m : String × Json) (fields : Altered) : fields.Member m m := ⟨rfl, Or.inl rfl⟩
  refine .object (.cons (hsame _ _) (.cons ⟨rfl, Or.inr ⟨_, List.mem_cons_self, ?steps⟩⟩
    (.cons ⟨rfl, Or.inr ⟨_, List.mem_cons_of_mem _ List.mem_cons_self, ?pool⟩⟩ .nil)))
  case steps =>
    refine .array (.cons (.object (.cons (hsame _ _) (.cons (hsame _ _) (.cons ?_ .nil)))) .nil)
    refine ⟨rfl, Or.inr ⟨_, List.mem_cons_self, .object (.cons ?_ ?_)⟩⟩
    · exact ⟨rfl, Or.inr ⟨_, List.mem_cons_self, .string hhash⟩⟩
    · exact .cons (hsame _ _) (.cons (hsame _ _) .nil)
  case pool => exact .object (.cons ⟨hkey, rfl⟩ .nil)

theorem toJson_tap : tap.optimize.toJson =
    tapJson (ContentHash.of "<a/>").text (ContentHash.of "<a/>").text := by
  have hpooled : tap.optimize =
      { steps := [{ id := "tap", snapshot := some { hash := .of "<a/>" } }]
        pool := some [(.of "<a/>", ⟨"<a/>", none, 1⟩)] } := rfl
  have hsnapshot : ({ hash := .of "<a/>" } : Snapshot).toJson =
      .object [("hash", .string (ContentHash.of "<a/>").text), ("device", ({} : Device).toJson),
        ("page", ({} : Page).toJson)] := by
    simp [Snapshot.toJson, Snapshot.hasContent, put, putSome, putIf, ContentHash.toJson]
  have hstep : ({ id := "tap", snapshot := some { hash := .of "<a/>" } } : Step).toJson =
      .object [("id", .string "tap"), ("locator", .object []),
        ("snapshot", ({ hash := .of "<a/>" } : Snapshot).toJson)] := rfl
  rw [hpooled, tapJson, ← hsnapshot, ← hstep]
  rfl

theorem importText_recased_tap :
    importText tapText = .ok tap ∧ tap.Integral ∧
      importText ((tapJson "29114363F749A0226B6988DDA3CA2492A954117AB6B5F382706C20300DABC079"
        "29114363f749a0226b6988DDA3ca2492a954117ab6b5f382706c20300dabC079").render .compact) =
          .ok tap.optimize.restore := by
  have hread : importText tapText = .ok tap := rfl
  have hint : tap.Integral := by
    refine ⟨fun step hstep => ?_, nofun⟩
    obtain rfl := List.mem_singleton.mp hstep
    exact .object nofun
  have hdigest : (ContentHash.of "<a/>").text =
      "29114363f749a0226b6988dda3ca2492a954117ab6b5f382706c20300dabc079" := by decide +kernel
  have hkey : SameLetters (ContentHash.of "<a/>").text
      "29114363F749A0226B6988DDA3CA2492A954117AB6B5F382706C20300DABC079" := by
    rw [hdigest, SameLetters]
    decide +kernel
  have hhash : SameLetters (ContentHash.of "<a/>").text
      "29114363f749a0226b6988DDA3ca2492a954117ab6b5f382706c20300dabC079" := by
    rw [hdigest, SameLetters]
    decide +kernel
  have hrecased := recased_tapJson hkey hhash
  rw [← toJson_tap] at hrecased
  obtain ⟨hexported, -, hrendered⟩ := importText_recased hread hint hrecased
  exact ⟨hread, hint, (hrendered .compact Json.spaced_compact).trans hexported⟩

end Script

end Replay
