import Replay.Proofs.Wire.Snapshot
import Replay.Wire.Script
set_option autoImplicit false

namespace Replay

open Wire

namespace Wire

theorem fieldsOf_of_inOrder {members : Json.Members} (h : (Json.object members).InOrder) :
    fieldsOf members = members := Json.object.inj h.sorted_eq

theorem found_eq_none {name : String} {members : Json.Members}
    (h : name ∉ members.map Prod.fst) : found name members = none := by
  rw [found, Ordered.get?_eq_none]
  intro hmem
  obtain ⟨pair, hpair, rfl⟩ := List.mem_map.mp hmem
  have hsorted := Ordered.mem_ofList hpair
  rw [Json.sortedMembers_eq] at hsorted
  obtain ⟨⟨key, x⟩, hmember, rfl⟩ := List.mem_map.mp hsorted
  have hkey : key ∈ members.map Prod.fst := List.mem_map_of_mem hmember
  exact h hkey

end Wire

theorem Locator.carries (l : Locator) : Carries 1 toJson ofJson? l := by
  have hstring (field : Option String) (s : String) (_ : field = some s) :
      Carries 0 .string readString s := carries_string s
  have hbounds (r : Rect) (_ : l.bounds = some r) : Carries 0 writeRect readRect r := carries_rect r
  refine carries_record (fun _ => rfl) rfl ?_ ?_
  · simp only [plainMembers_append, plainMembers_putSome]
    exact ⟨⟨⟨⟨⟨fun s _ => .string s, fun s _ => .string s⟩, fun s _ => .string s⟩,
      fun s _ => .string s⟩, fun s _ => .string s⟩, fun r hr => (hbounds r hr).plain⟩
  · rw [optional_found rfl (by simp) (hstring l.xpathField),
      optional_found rfl (by simp) (hstring l.resourceIdField),
      optional_found rfl (by simp) (hstring l.textField),
      optional_found rfl (by simp) (hstring l.contentDescField),
      optional_found rfl (by simp) (hstring l.classNameField),
      optional_found rfl (by simp) hbounds]
    rfl

theorem readParams_sorted {params : Params} (h : (Json.object params).InOrder) :
    readParams (Json.object params).sorted = some params := by
  have hascending : Ordered.Ascending params := by
    cases h with
    | object hkeys _ => exact hkeys
  rw [h.sorted_eq, readParams, Ordered.ofList_of_ascending hascending]

namespace Step

structure Portable (depth : Nat) (s : Step) : Prop where
  params : (Json.object s.params).Result (depth + 3)
  snapshot : ∀ t, s.snapshot = some t → t.Portable

def Integral (s : Step) : Prop := (Json.object s.params).Integral

theorem carries {depth : Nat} {s : Step} (h : s.Portable depth) (hint : s.Integral) :
    Carries (depth + 4) toJson ofJson? s := by
  have hid : Carries (depth + 3) .string readString s.id := carries_string s.id
  have hstring (field : Option String) (x : String) (_ : field = some x) :
      Carries (depth + 3) .string readString x := carries_string x
  have hparams : Carries (depth + 3) .object readParams s.params :=
    ⟨⟨h.params.1, hint⟩, readParams_sorted h.params.2⟩
  have hlocator : Carries (depth + 3) Locator.toJson Locator.ofJson? s.locator :=
    (Locator.carries s.locator).mono (by omega)
  have hsnapshot (t : Snapshot) (ht : s.snapshot = some t) :
      Carries (depth + 3) Snapshot.toJson Snapshot.ofJson? t :=
    (Snapshot.carries (h.snapshot t ht)).mono (by omega)
  have hempty (hno : (!s.params.isEmpty) = false) : s.params = [] := by simpa using hno
  refine carries_record (fun _ => rfl) rfl ?_ ?_
  · simp only [plainMembers_append, plainMembers_put, plainMembers_putSome, plainMembers_putIf]
    exact ⟨⟨⟨⟨⟨hid.plain, fun x _ => .string x⟩, fun x _ => .string x⟩, fun _ => hparams.plain⟩,
      hlocator.plain⟩, fun t ht => (hsnapshot t ht).plain⟩
  · rw [required_found (by simp) hid, optional_found rfl (by simp) (hstring s.name),
      optional_found rfl (by simp) (hstring s.action),
      defaulted_putIf (by simp) hempty fun _ => hparams.read_sorted,
      defaulted_found (by simp) hlocator, optional_found rfl (by simp) hsnapshot]
    rfl

theorem result_of_readParams {depth : Nat} {j : Json} {params : Params} (hj : j.Result depth)
    (h : readParams j = some params) : (Json.object params).Result depth := by
  unfold readParams at h
  split at h
  · next members =>
    obtain rfl := Option.some.inj h
    cases hj.2 with
    | object hkeys _ => rwa [Ordered.ofList_of_ascending hkeys]
  · cases h

theorem portable_of_json {depth : Nat} {j : Json} {s : Step} (hj : j.Result (depth + 4))
    (h : ofJson? j = some s) : s.Portable depth := by
  obtain ⟨m, hm, h⟩ := Option.bind_eq_some_iff.mp h
  have hfields := result_of_fields hj hm
  obtain ⟨id, -, h⟩ := Option.bind_eq_some_iff.mp h
  obtain ⟨name, -, h⟩ := Option.bind_eq_some_iff.mp h
  obtain ⟨action, -, h⟩ := Option.bind_eq_some_iff.mp h
  obtain ⟨params, hparams, h⟩ := Option.bind_eq_some_iff.mp h
  obtain ⟨locator, -, h⟩ := Option.bind_eq_some_iff.mp h
  obtain ⟨snapshot, hsnapshot, h⟩ := Option.bind_eq_some_iff.mp h
  obtain rfl := Option.some.inj h
  have hnone : (Json.object []).Result (depth + 3) :=
    ⟨.object nofun, .object List.Pairwise.nil nofun⟩
  exact {
    params := of_defaulted (P := fun params => (Json.object params).Result (depth + 3)) hfields
      result_of_readParams hnone hparams
    snapshot := of_optional hfields Snapshot.portable_of_json hsnapshot }

end Step

namespace PoolEntry

structure Portable (e : PoolEntry) : Prop where
  capturedAt : ∀ t, e.capturedAt = some t → t.Proper
  usageCount_lt : e.usageCount < UInt32.size

theorem carries {e : PoolEntry} (h : e.Portable) : Carries 1 toJson ofJson? e := by
  have hcontent : Carries 0 .string readString e.content := carries_string e.content
  have htime (t : Instant) (ht : e.capturedAt = some t) : Carries 0 writeInstant readInstant t :=
    carries_instant (h.capturedAt t ht)
  have hcount : Carries 0 (.nat ·) readNat32 e.usageCount := carries_nat32 h.usageCount_lt
  refine carries_record (fun _ => rfl) rfl ?_ ?_
  · simp only [plainMembers_append, plainMembers_put, plainMembers_putSome]
    exact ⟨⟨hcontent.plain, fun t ht => (htime t ht).plain⟩, hcount.plain⟩
  · rw [required_found (by simp) hcontent, optional_found rfl (by simp) htime,
      required_found (by simp) hcount]
    rfl

theorem portable_of_json {depth : Nat} {j : Json} {e : PoolEntry} (hj : j.Result (depth + 1))
    (h : ofJson? j = some e) : e.Portable := by
  obtain ⟨m, hm, h⟩ := Option.bind_eq_some_iff.mp h
  have hfields := result_of_fields hj hm
  obtain ⟨content, -, h⟩ := Option.bind_eq_some_iff.mp h
  obtain ⟨capturedAt, hcapturedAt, h⟩ := Option.bind_eq_some_iff.mp h
  obtain ⟨count, hcount, h⟩ := Option.bind_eq_some_iff.mp h
  obtain rfl := Option.some.inj h
  exact {
    capturedAt := of_optional hfields (fun _ => proper_of_readInstant) hcapturedAt
    usageCount_lt := of_required hfields (fun _ => lt_of_readNat) hcount }

end PoolEntry

namespace Pool

structure Portable (p : Pool) : Prop where
  ascending : Ordered.Ascending p
  isLower : ∀ pair ∈ p, pair.1.IsLower
  entry : ∀ pair ∈ p, pair.2.Portable

theorem carries {p : Pool} (h : p.Portable) : Carries 2 toJson ofJson? p := by
  refine ⟨.object fun m hm => ?_, ?_⟩
  · obtain ⟨pair, hpair, rfl⟩ := List.mem_map.mp hm
    exact (PoolEntry.carries (h.entry pair hpair)).plain
  · have hsorted : p.toJson.sorted =
        .object (Ordered.ofList (p.map fun pair => (pair.1.text, pair.2.toJson.sorted))) := by
      rw [toJson, Json.sorted, Json.sortedMembers_eq, List.map_map]
      rfl
    -- Hashes are in the order of their texts, so nothing moves and nothing is merged.
    have hkeys : Ordered.Ascending (p.map fun pair => (pair.1.text, pair.2.toJson.sorted)) :=
      List.pairwise_map.mpr h.ascending
    rw [hsorted, ofJson?, Ordered.ofList_of_ascending hkeys, Ordered.ofList_of_ascending hkeys]
    refine Option.bind_eq_some_iff.mpr ⟨p, mapM_eq_some.mpr ?_, ?_⟩
    · rw [List.map_map]
      refine List.map_congr_left fun pair hpair => ?_
      obtain ⟨hash, e⟩ := pair
      have he : PoolEntry.ofJson? e.toJson.sorted = some e :=
        (PoolEntry.carries (h.entry (hash, e) hpair)).read_sorted
      have hhash : ContentHash.ofText hash.text = hash := h.isLower (hash, e) hpair
      simp [he, hhash]
    · rw [Ordered.ofList_of_ascending h.ascending]
      rfl

theorem portable_of_json {depth : Nat} {j : Json} {p : Pool} (hj : j.Result (depth + 2))
    (h : ofJson? j = some p) : p.Portable := by
  unfold ofJson? at h
  split at h
  · next members =>
    obtain ⟨entries, hentries, h⟩ := Option.bind_eq_some_iff.mp h
    obtain rfl := Option.some.inj h
    have hread (pair : ContentHash × PoolEntry) (hpair : pair ∈ Ordered.ofList entries) :
        pair.1.IsLower ∧ pair.2.Portable := by
      have hmem := List.mem_map_of_mem (f := some) (Ordered.mem_ofList hpair)
      rw [← mapM_eq_some.mp hentries] at hmem
      obtain ⟨⟨key, x⟩, hx, hmade⟩ := List.mem_map.mp hmem
      obtain ⟨e, he, hmade⟩ := Option.bind_eq_some_iff.mp hmade
      obtain rfl := Option.some.inj hmade
      exact ⟨ContentHash.isLower_ofText key,
        PoolEntry.portable_of_json (hj.members.2 _ (Ordered.mem_ofList hx)) he⟩
    exact ⟨Ordered.ascending_ofList entries, fun pair hpair => (hread pair hpair).1,
      fun pair hpair => (hread pair hpair).2⟩
  · cases h

end Pool

namespace Metadata

/-- What metadata has to be to come through JSON unchanged. A key of its own would be taken for one
of the named fields if it had the name of one. -/
structure Portable (depth : Nat) (m : Metadata) : Prop where
  createdAt : ∀ t, m.createdAt = some t → t.Proper
  extra : (Json.object m.extra).Result (depth + 1)
  unnamed : ∀ key ∈ m.extra.map Prod.fst, key ∉ names

def Integral (m : Metadata) : Prop := (Json.object m.extra).Integral

def named (m : Metadata) : Json.Members :=
  putSome "platform" .string m.platform ++ putSome "author" .string m.author ++
    putSome "createdAt" writeInstant m.createdAt

theorem found_named_of_not_mem {key : String} (h : key ∉ names) (m : Metadata) :
    found key m.named = none := by
  simp only [names, List.mem_cons, List.not_mem_nil, or_false, not_or] at h
  simp [named, h]

theorem extra_of_fields {depth : Nat} {m : Metadata} (h : m.Portable depth) :
    Ordered.ofList ((fieldsOf (m.named ++ m.extra)).filter fun (key, _) => !names.contains key) =
      m.extra := by
  have hfields : Ordered.Ascending (fieldsOf (m.named ++ m.extra)) := Ordered.ascending_ofList _
  have hextra : Ordered.Ascending m.extra := h.extra.members.1
  rw [Ordered.ofList_of_ascending (hfields.filter _)]
  refine Ordered.ext_get? (hfields.filter _) hextra fun key => ?_
  rw [Ordered.get?_filter (fun key => !names.contains key)]
  by_cases hkey : key ∈ names
  · have hnot : key ∉ m.extra.map Prod.fst := fun hmem => h.unnamed key hmem hkey
    rw [if_neg (by simpa using hkey), Ordered.get?_eq_none.mpr hnot]
  · rw [if_pos (by simpa using hkey), ← found, found_append, found_named_of_not_mem hkey,
      Option.or_none, found, fieldsOf_of_inOrder h.extra.2]

theorem carries {depth : Nat} {m : Metadata} (h : m.Portable depth) (hint : m.Integral) :
    Carries (depth + 1) toJson ofJson? m := by
  have hstring (field : Option String) (s : String) (_ : field = some s) :
      Carries depth .string readString s := carries_string s
  have htime (t : Instant) (ht : m.createdAt = some t) : Carries depth writeInstant readInstant t :=
    carries_instant (h.createdAt t ht)
  have hextra {name : String} (hname : name ∈ names) : found name m.extra = none :=
    found_eq_none fun hmem => h.unnamed name hmem hname
  have hplatform : found "platform" m.extra = none := hextra (by decide)
  have hauthor : found "author" m.extra = none := hextra (by decide)
  have hcreatedAt : found "createdAt" m.extra = none := hextra (by decide)
  have hwrite : m.toJson = .object (m.named ++ m.extra) := rfl
  refine ⟨?_, ?_⟩
  · have hnamed : PlainMembers depth m.named := by
      simp only [named, plainMembers_append, plainMembers_putSome]
      exact ⟨⟨fun s _ => .string s, fun s _ => .string s⟩, fun t ht => (htime t ht).plain⟩
    have hmembers : PlainMembers depth m.extra := by
      cases hint with
      | object hint => exact fun x hx => ⟨(h.extra.members.2 x hx).1, hint x hx⟩
    rw [hwrite]
    exact .object (plainMembers_append.mpr ⟨hnamed, hmembers⟩)
  · have hread : ofJson? m.toJson.sorted = (do
        let platform ← optional (fieldsOf (m.named ++ m.extra)) "platform" readString
        let author ← optional (fieldsOf (m.named ++ m.extra)) "author" readString
        let createdAt ← optional (fieldsOf (m.named ++ m.extra)) "createdAt" readInstant
        return { platform, author, createdAt, extra := m.extra }) := by
      rw [hwrite, Json.sorted, ofJson?, ← fieldsOf, extra_of_fields h]
    rw [hread, optional_found rfl (by simp [named, hplatform]) (hstring m.platform),
      optional_found rfl (by simp [named, hauthor]) (hstring m.author),
      optional_found rfl (by simp [named, hcreatedAt]) htime]
    rfl

theorem portable_of_json {depth : Nat} {j : Json} {m : Metadata} (hj : j.Result (depth + 1))
    (h : ofJson? j = some m) : m.Portable depth := by
  unfold ofJson? at h
  split at h
  · next members =>
    obtain ⟨hkeys, hmembers⟩ := hj.members
    obtain ⟨platform, -, h⟩ := Option.bind_eq_some_iff.mp h
    obtain ⟨author, -, h⟩ := Option.bind_eq_some_iff.mp h
    obtain ⟨createdAt, hcreatedAt, h⟩ := Option.bind_eq_some_iff.mp h
    obtain rfl := Option.some.inj h
    have hextra (x : String × Json) (hx : x ∈ members.filter fun (key, _) => !names.contains key) :
        x ∈ members ∧ x.1 ∉ names := by simpa using List.mem_filter.mp hx
    rw [Ordered.ofList_of_ascending (hkeys.filter _)]
    exact {
      createdAt := of_optional hmembers (fun _ => proper_of_readInstant) hcreatedAt
      extra := ⟨.object fun x hx => (hmembers x (hextra x hx).1).1,
        .object (hkeys.filter _) fun x hx => (hmembers x (hextra x hx).1).2⟩
      unnamed := fun key hkey => by
        obtain ⟨x, hx, rfl⟩ := List.mem_map.mp hkey
        exact (hextra x hx).2 }
  · cases h

end Metadata

namespace Script

/-- What a script has to be to come through JSON unchanged. -/
structure Portable (depth : Nat) (s : Script) : Prop where
  steps : ∀ step ∈ s.steps, step.Portable depth
  pool : ∀ p, s.pool = some p → p.Portable
  metadata : ∀ m, s.metadata = some m → m.Portable (depth + 4)

/-- All numbers in parameters and metadata are integers. -/
structure Integral (s : Script) : Prop where
  steps : ∀ step ∈ s.steps, step.Integral
  metadata : ∀ m, s.metadata = some m → m.Integral

theorem carries {depth : Nat} {s : Script} (h : s.Portable depth) (hint : s.Integral) :
    Carries (depth + 6) toJson ofJson? s := by
  have hname : Carries (depth + 5) .string readString s.name := carries_string s.name
  have hversion (x : String) (_ : s.version = some x) : Carries (depth + 5) .string readString x :=
    carries_string x
  have hsteps : Carries (depth + 5) (writeList Step.toJson) (readList Step.ofJson?) s.steps :=
    carries_list fun step hstep => Step.carries (h.steps step hstep) (hint.steps step hstep)
  have hpool (p : Pool) (hp : s.pool = some p) : Carries (depth + 5) Pool.toJson Pool.ofJson? p :=
    (Pool.carries (h.pool p hp)).mono (by omega)
  have hmetadata (m : Metadata) (hm : s.metadata = some m) :
      Carries (depth + 5) Metadata.toJson Metadata.ofJson? m :=
    Metadata.carries (h.metadata m hm) (hint.metadata m hm)
  refine carries_record (fun _ => rfl) rfl ?_ ?_
  · simp only [plainMembers_append, plainMembers_put, plainMembers_putSome]
    exact ⟨⟨⟨⟨hname.plain, fun x _ => .string x⟩, hsteps.plain⟩, fun p hp => (hpool p hp).plain⟩,
      fun m hm => (hmetadata m hm).plain⟩
  · rw [defaulted_found (by simp) hname, optional_found rfl (by simp) hversion,
      required_found (by simp) hsteps, optional_found rfl (by simp) hpool,
      optional_found rfl (by simp) hmetadata]
    rfl

theorem portable_of_json {depth : Nat} {j : Json} {s : Script} (hj : j.Result (depth + 6))
    (h : ofJson? j = some s) : s.Portable depth := by
  obtain ⟨m, hm, h⟩ := Option.bind_eq_some_iff.mp h
  have hfields := result_of_fields hj hm
  obtain ⟨name, -, h⟩ := Option.bind_eq_some_iff.mp h
  obtain ⟨version, -, h⟩ := Option.bind_eq_some_iff.mp h
  obtain ⟨steps, hsteps, h⟩ := Option.bind_eq_some_iff.mp h
  obtain ⟨pool, hpool, h⟩ := Option.bind_eq_some_iff.mp h
  obtain ⟨metadata, hmetadata, h⟩ := Option.bind_eq_some_iff.mp h
  obtain rfl := Option.some.inj h
  exact {
    steps := of_required (P := fun steps => ∀ step ∈ steps, step.Portable depth) hfields
      (of_list Step.portable_of_json) hsteps
    pool := of_optional hfields Pool.portable_of_json hpool
    metadata := of_optional hfields Metadata.portable_of_json hmetadata }

theorem fits_iff_portable {depth larger : Nat} {s : Script} (h : s.Portable larger)
    (hint : s.Integral) : s.toJson.Fits (depth + 6) ↔ s.Portable depth := by
  refine ⟨fun hfits => ?_, fun hs => (carries hs hint).plain.fits⟩
  exact portable_of_json hfits.result_sorted (carries h hint).read_sorted

section Frame

variable {s after : Script} (hparams : after.steps.map (·.params) = s.steps.map (·.params))
  (hmetadata : after.metadata = s.metadata)
include hparams hmetadata

theorem Portable.of_frame {depth : Nat} (h : s.Portable depth)
    (hsnapshots : ∀ step ∈ after.steps, ∀ t, step.snapshot = some t → t.Portable)
    (hpool : ∀ p, after.pool = some p → p.Portable) : after.Portable depth where
  steps := fun step hstep => by
    have hmem : step.params ∈ s.steps.map (·.params) := hparams ▸ List.mem_map_of_mem hstep
    obtain ⟨before, hbefore, heq⟩ := List.mem_map.mp hmem
    exact ⟨heq ▸ (h.steps before hbefore).params, hsnapshots step hstep⟩
  pool := hpool
  metadata := fun m hm => h.metadata m (hmetadata ▸ hm)

theorem Integral.of_frame (h : s.Integral) : after.Integral where
  steps := fun step hstep => by
    have hmem : step.params ∈ s.steps.map (·.params) := hparams ▸ List.mem_map_of_mem hstep
    obtain ⟨before, hbefore, heq⟩ := List.mem_map.mp hmem
    have hbefore := h.steps before hbefore
    rwa [Step.Integral, heq] at hbefore
  metadata := fun m hm => h.metadata m (hmetadata ▸ hm)

end Frame

end Script

end Replay
