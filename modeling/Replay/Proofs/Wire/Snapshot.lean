import Replay.Proofs.Digest
import Replay.Proofs.Wire.Record
import Replay.Wire.Snapshot
set_option autoImplicit false

namespace Replay

open Wire

theorem StrategyId.carries (depth : Nat) (s : StrategyId) : Carries depth toJson ofJson? s :=
  carries_name (fun s => by cases s <;> rfl) s

namespace ScreenSize

structure Portable (s : ScreenSize) : Prop where
  width_lt : s.width < UInt32.size
  height_lt : s.height < UInt32.size

theorem carries {s : ScreenSize} (h : s.Portable) : Carries 1 toJson ofJson? s := by
  have hwidth : Carries 0 (.nat ·) readNat32 s.width := carries_nat32 h.width_lt
  have hheight : Carries 0 (.nat ·) readNat32 s.height := carries_nat32 h.height_lt
  refine carries_record (fun _ => rfl) rfl ?_ ?_
  · simp only [plainMembers_append, plainMembers_put]
    exact ⟨hwidth.plain, hheight.plain⟩
  · rw [required_found (by simp) hwidth,
      required_found (by simp) hheight]
    rfl

theorem portable_of_json {depth : Nat} {j : Json} {s : ScreenSize} (hj : j.Result (depth + 1))
    (h : ofJson? j = some s) : s.Portable := by
  obtain ⟨m, hm, h⟩ := Option.bind_eq_some_iff.mp h
  have hfields := result_of_fields hj hm
  obtain ⟨width, hwidth, h⟩ := Option.bind_eq_some_iff.mp h
  obtain ⟨height, hheight, h⟩ := Option.bind_eq_some_iff.mp h
  obtain rfl := Option.some.inj h
  exact ⟨of_required hfields (fun _ => lt_of_readNat) hwidth,
    of_required hfields (fun _ => lt_of_readNat) hheight⟩

end ScreenSize

namespace Device

def Portable (d : Device) : Prop := ∀ s, d.screen = some s → s.Portable

theorem portable_default : Portable {} := nofun

theorem carries {d : Device} (h : d.Portable) : Carries 2 toJson ofJson? d := by
  have hstring (s : String) : Carries 1 .string readString s := carries_string s
  have hscreen (s : ScreenSize) (hs : d.screen = some s) :
      Carries 1 ScreenSize.toJson ScreenSize.ofJson? s := ScreenSize.carries (h s hs)
  refine carries_record (fun _ => rfl) rfl ?_ ?_
  · simp only [plainMembers_append, plainMembers_put, plainMembers_putSome]
    exact ⟨⟨⟨⟨(hstring _).plain, (hstring _).plain⟩, (hstring _).plain⟩, (hstring _).plain⟩,
      fun s hs => (hscreen s hs).plain⟩
  · rw [defaulted_found (by simp) (hstring d.id),
      defaulted_found (by simp) (hstring d.name),
      defaulted_found (by simp) (hstring d.appPackage),
      defaulted_found (by simp) (hstring d.activityName),
      optional_found rfl (by simp) hscreen]
    rfl

theorem portable_of_json {depth : Nat} {j : Json} {d : Device} (hj : j.Result (depth + 2))
    (h : ofJson? j = some d) : d.Portable := by
  obtain ⟨m, hm, h⟩ := Option.bind_eq_some_iff.mp h
  have hfields := result_of_fields hj hm
  obtain ⟨id, -, h⟩ := Option.bind_eq_some_iff.mp h
  obtain ⟨name, -, h⟩ := Option.bind_eq_some_iff.mp h
  obtain ⟨appPackage, -, h⟩ := Option.bind_eq_some_iff.mp h
  obtain ⟨activityName, -, h⟩ := Option.bind_eq_some_iff.mp h
  obtain ⟨screen, hscreen, h⟩ := Option.bind_eq_some_iff.mp h
  obtain rfl := Option.some.inj h
  exact of_optional hfields ScreenSize.portable_of_json hscreen

end Device

namespace Page

def Portable (p : Page) : Prop := p.elementCount < UInt64.size

theorem portable_default : Portable {} := Nat.zero_lt_succ _

theorem carries {p : Page} (h : p.Portable) : Carries 1 toJson ofJson? p := by
  have hstring (s : String) : Carries 0 .string readString s := carries_string s
  have hcount : Carries 0 (.nat ·) readNat64 p.elementCount := carries_nat64 h
  have hversion (s : String) (_ : p.appVersion = some s) : Carries 0 .string readString s :=
    hstring s
  refine carries_record (fun _ => rfl) rfl ?_ ?_
  · simp only [plainMembers_append, plainMembers_put, plainMembers_putSome]
    exact ⟨⟨⟨(hstring _).plain, (hstring _).plain⟩, hcount.plain⟩,
      fun s hs => (hversion s hs).plain⟩
  · rw [defaulted_found (by simp) (hstring p.title), defaulted_found (by simp) (hstring p.kind),
      defaulted_found (by simp) hcount, optional_found rfl (by simp) hversion]
    rfl

theorem portable_of_json {depth : Nat} {j : Json} {p : Page} (hj : j.Result (depth + 1))
    (h : ofJson? j = some p) : p.Portable := by
  obtain ⟨m, hm, h⟩ := Option.bind_eq_some_iff.mp h
  have hfields := result_of_fields hj hm
  obtain ⟨title, -, h⟩ := Option.bind_eq_some_iff.mp h
  obtain ⟨kind, -, h⟩ := Option.bind_eq_some_iff.mp h
  obtain ⟨count, hcount, h⟩ := Option.bind_eq_some_iff.mp h
  obtain ⟨version, -, h⟩ := Option.bind_eq_some_iff.mp h
  obtain rfl := Option.some.inj h
  have hlt (j : Json) (n : Nat) (_ : j.Result depth) (h : readNat64 j = some n) :
      n < UInt64.size := lt_of_readNat h
  exact of_defaulted hfields (hlt _ _) (by decide) hcount

end Page

namespace Provenance

def Portable (p : Provenance) : Prop := p.repairedAt.Proper

theorem carries {p : Provenance} (h : p.Portable) : Carries 1 toJson ofJson? p := by
  have hstrategy : Carries 0 StrategyId.toJson StrategyId.ofJson? p.strategy :=
    StrategyId.carries 0 p.strategy
  have htime : Carries 0 writeInstant readInstant p.repairedAt := carries_instant h
  refine carries_record (fun _ => rfl) rfl ?_ ?_
  · simp only [plainMembers_append, plainMembers_put]
    exact ⟨hstrategy.plain, htime.plain⟩
  · rw [required_found (by simp) hstrategy, required_found (by simp) htime]
    rfl

theorem portable_of_json {depth : Nat} {j : Json} {p : Provenance} (hj : j.Result (depth + 1))
    (h : ofJson? j = some p) : p.Portable := by
  obtain ⟨m, hm, h⟩ := Option.bind_eq_some_iff.mp h
  obtain ⟨strategy, -, h⟩ := Option.bind_eq_some_iff.mp h
  obtain ⟨time, htime, h⟩ := Option.bind_eq_some_iff.mp h
  obtain rfl := Option.some.inj h
  exact of_required (result_of_fields hj hm) (fun _ => proper_of_readInstant) htime

end Provenance

theorem ContentHash.carries (depth : Nat) {h : ContentHash} (hlower : h.IsLower) :
    Carries depth toJson ofJson? h := by
  refine ⟨.string h.text, ?_⟩
  rw [toJson, ofJson?, readString_sorted, Option.map_some, hlower]

theorem ContentHash.isLower_of_json {j : Json} {h : ContentHash} (hj : ofJson? j = some h) :
    h.IsLower := by
  obtain ⟨s, -, rfl⟩ := Option.map_eq_some_iff.mp hj
  exact isLower_ofText s

namespace Snapshot

/-- What a snapshot has to be to come through JSON unchanged. -/
structure Portable (s : Snapshot) : Prop where
  hash : s.hash.IsLower
  capturedAt : ∀ t, s.capturedAt = some t → t.Proper
  device : s.device.Portable
  page : s.page.Portable
  repair : ∀ r, s.repair = some r → r.Portable

theorem carries {s : Snapshot} (h : s.Portable) : Carries 3 toJson ofJson? s := by
  have hcontent : Carries 2 .string readString s.content := carries_string s.content
  have hhash : Carries 2 ContentHash.toJson ContentHash.ofJson? s.hash :=
    ContentHash.carries 2 h.hash
  have htime (t : Instant) (ht : s.capturedAt = some t) : Carries 2 writeInstant readInstant t :=
    carries_instant (h.capturedAt t ht)
  have hdevice : Carries 2 Device.toJson Device.ofJson? s.device := Device.carries h.device
  have hpage : Carries 2 Page.toJson Page.ofJson? s.page :=
    (Page.carries h.page).mono (by decide)
  have hsynthetic (hyes : s.synthetic = true) :
      readBool (Json.bool true).sorted = some s.synthetic := congrArg some hyes.symm
  have hrepair (r : Provenance) (hr : s.repair = some r) :
      Carries 2 Provenance.toJson Provenance.ofJson? r :=
    (Provenance.carries (h.repair r hr)).mono (by decide)
  -- What is left out is what is read in its place.
  have hempty (hno : s.hasContent = false) : s.content = "" := by simpa [hasContent] using hno
  have hnone (hno : (!s.hash.isEmpty) = false) : s.hash = {} :=
    congrArg ContentHash.mk (by simpa [ContentHash.isEmpty] using hno)
  refine carries_record (fun _ => rfl) rfl ?_ ?_
  · simp only [plainMembers_append, plainMembers_put, plainMembers_putSome, plainMembers_putIf]
    exact ⟨⟨⟨⟨⟨⟨fun _ => hcontent.plain, fun _ => hhash.plain⟩, fun t ht => (htime t ht).plain⟩,
      hdevice.plain⟩, hpage.plain⟩, fun _ => .bool true⟩, fun r hr => (hrepair r hr).plain⟩
  · rw [defaulted_putIf (by simp) hempty fun _ => hcontent.read_sorted,
      defaulted_putIf (by simp) hnone fun _ => hhash.read_sorted,
      optional_found rfl (by simp) htime, defaulted_found (by simp) hdevice,
      defaulted_found (by simp) hpage, defaulted_putIf (by simp) id hsynthetic,
      optional_found rfl (by simp) hrepair]
    rfl

theorem portable_of_json {depth : Nat} {j : Json} {s : Snapshot} (hj : j.Result (depth + 3))
    (h : ofJson? j = some s) : s.Portable := by
  obtain ⟨m, hm, h⟩ := Option.bind_eq_some_iff.mp h
  have hfields := result_of_fields hj hm
  obtain ⟨content, -, h⟩ := Option.bind_eq_some_iff.mp h
  obtain ⟨hash, hhash, h⟩ := Option.bind_eq_some_iff.mp h
  obtain ⟨capturedAt, hcapturedAt, h⟩ := Option.bind_eq_some_iff.mp h
  obtain ⟨device, hdevice, h⟩ := Option.bind_eq_some_iff.mp h
  obtain ⟨page, hpage, h⟩ := Option.bind_eq_some_iff.mp h
  obtain ⟨synthetic, -, h⟩ := Option.bind_eq_some_iff.mp h
  obtain ⟨repair, hrepair, h⟩ := Option.bind_eq_some_iff.mp h
  obtain rfl := Option.some.inj h
  exact {
    hash := of_defaulted hfields (fun _ => ContentHash.isLower_of_json) ContentHash.isLower_empty
      hhash
    capturedAt := of_optional hfields (fun _ => proper_of_readInstant) hcapturedAt
    device := of_defaulted hfields Device.portable_of_json Device.portable_default hdevice
    page := of_defaulted hfields Page.portable_of_json Page.portable_default hpage
    repair := of_optional hfields Provenance.portable_of_json hrepair }

end Snapshot

end Replay
