import Replay.Proofs.Instant.Reading
import Replay.Proofs.Json.Result
import Replay.Proofs.Rect
import Replay.Wire.Record
set_option autoImplicit false

/-!
Records in JSON, there and back. `Carries` says that a value which is written and put in order is
read back; a record is carried if its fields are (`carries_record`). Conversely the fields of a record
that was read are parts of what was read (`result_of_fields`).
-/

namespace Replay

namespace Json

/-- Fit to be written and read back, up to the order of members. -/
structure Plain (depth : Nat) (j : Json) : Prop where
  fits : j.Fits depth
  integral : j.Integral

namespace Plain

variable {depth : Nat}

theorem null : Plain depth .null := ⟨.null, .null⟩

theorem string (s : String) : Plain depth (.string s) := ⟨.string, .string⟩

theorem bool (b : Bool) : Plain depth (.bool b) := ⟨.bool, .bool⟩

theorem nat {n : Nat} (h : n < UInt64.size) : Plain depth (.nat n) := by
  have hsize : UInt64.size = 0x10000000000000000 := rfl
  exact ⟨.number ⟨by omega, by omega⟩, .integer⟩

theorem array {items : List Json} (h : ∀ x ∈ items, Plain depth x) :
    Plain (depth + 1) (.array items) :=
  ⟨.array fun x hx => (h x hx).fits, .array fun x hx => (h x hx).integral⟩

theorem object {members : Members} (h : ∀ m ∈ members, Plain depth m.2) :
    Plain (depth + 1) (.object members) :=
  ⟨.object fun m hm => (h m hm).fits, .object fun m hm => (h m hm).integral⟩

theorem exists_items {items : List Json} (h : Plain depth (.array items)) :
    ∃ inner, depth = inner + 1 ∧ ∀ x ∈ items, Plain inner x := by
  obtain ⟨hfits, hint⟩ := h
  cases hfits with
  | array hfits =>
    cases hint with
    | array hint => exact ⟨_, rfl, fun x hx => ⟨hfits x hx, hint x hx⟩⟩

theorem exists_members {members : Members} (h : Plain depth (.object members)) :
    ∃ inner, depth = inner + 1 ∧ ∀ m ∈ members, Plain inner m.2 := by
  obtain ⟨hfits, hint⟩ := h
  cases hfits with
  | object hfits =>
    cases hint with
    | object hint => exact ⟨_, rfl, fun m hm => ⟨hfits m hm, hint m hm⟩⟩

theorem mono {larger : Nat} (hle : depth ≤ larger) {j : Json} (h : j.Plain depth) :
    j.Plain larger := ⟨h.fits.mono hle, h.integral⟩

end Plain

end Json

namespace Wire

section Writing

variable {α : Type} {depth : Nat}

/-- A value is read back from what is written for it, once the members of objects are in order. -/
structure Carries (depth : Nat) (write : α → Json) (read : Json → Option α) (x : α) : Prop where
  plain : (write x).Plain depth
  read_sorted : read (write x).sorted = some x

theorem Carries.mono {larger : Nat} (hle : depth ≤ larger) {write : α → Json}
    {read : Json → Option α} {x : α} (h : Carries depth write read x) :
    Carries larger write read x := ⟨h.plain.mono hle, h.read_sorted⟩

def PlainMembers (depth : Nat) (members : Json.Members) : Prop := ∀ m ∈ members, m.2.Plain depth

@[simp] theorem plainMembers_append {a b : Json.Members} :
    PlainMembers depth (a ++ b) ↔ PlainMembers depth a ∧ PlainMembers depth b := by
  simp [PlainMembers, or_imp, forall_and]

@[simp] theorem plainMembers_put {name : String} {j : Json} :
    PlainMembers depth (put name j) ↔ j.Plain depth := by
  simp [PlainMembers, put]

@[simp] theorem plainMembers_putSome {name : String} {write : α → Json} {x : Option α} :
    PlainMembers depth (putSome name write x) ↔ ∀ y, x = some y → (write y).Plain depth := by
  cases x <;> simp [PlainMembers, putSome]

@[simp] theorem plainMembers_putIf {condition : Bool} {name : String} {j : Json} :
    PlainMembers depth (putIf condition name j) ↔ (condition = true → j.Plain depth) := by
  cases condition <;> simp [PlainMembers, putIf]

theorem mem_putSome {key name : String} {write : α → Json} {x : Option α} {j : Json} :
    (key, j) ∈ putSome name write x ↔ key = name ∧ ∃ y, x = some y ∧ j = write y := by
  cases x <;> simp [putSome]

def fieldsOf (members : Json.Members) : Fields := Ordered.ofList (Json.sortedMembers members)

def found (name : String) (members : Json.Members) : Option Json :=
  Ordered.get? name (fieldsOf members)

@[simp] theorem found_append (name : String) (a b : Json.Members) :
    found name (a ++ b) = (found name b).or (found name a) := by
  simp only [found, fieldsOf, Json.sortedMembers_eq, List.map_append, Ordered.get?_ofList_append]

@[simp] theorem found_put (key name : String) (j : Json) :
    found key (put name j) = if key = name then some j.sorted else none := by
  simp [found, fieldsOf, put, Json.sortedMembers, Ordered.ofList, Ordered.insert, Ordered.get?]

@[simp] theorem found_putSome (key name : String) (write : α → Json) (x : Option α) :
    found key (putSome name write x) =
      if key = name then x.map (fun y => (write y).sorted) else none := by
  cases x with
  | none => simp [found, fieldsOf, putSome, Json.sortedMembers, Ordered.ofList, Ordered.get?]
  | some y => exact found_put key name (write y)

@[simp] theorem found_putIf (key : String) (condition : Bool) (name : String) (j : Json) :
    found key (putIf condition name j) =
      if key = name then (if condition then some j.sorted else none) else none := by
  cases condition with
  | false => simp [found, fieldsOf, putIf, Json.sortedMembers, Ordered.ofList, Ordered.get?]
  | true => exact found_put key name j

variable {members : Json.Members} {name : String} {write : α → Json} {read : Json → Option α}

theorem required_found {x : α} (h : found name members = some (write x).sorted)
    (hx : Carries depth write read x) : required (fieldsOf members) name read = some x := by
  rw [required, ← found, h]
  exact hx.read_sorted

theorem defaulted_found {missing x : α} (h : found name members = some (write x).sorted)
    (hx : Carries depth write read x) :
    defaulted (fieldsOf members) name missing read = some x := by
  unfold defaulted
  rw [← found, h]
  exact hx.read_sorted

theorem defaulted_putIf {condition : Bool} {missing x : α} {j : Json}
    (h : found name members = if condition then some j else none)
    (hmissing : condition = false → x = missing) (hx : condition = true → read j = some x) :
    defaulted (fieldsOf members) name missing read = some x := by
  unfold defaulted
  rw [← found, h]
  cases condition with
  | false => exact congrArg some (hmissing rfl).symm
  | true => exact hx rfl

theorem optional_some {y : α} (hnull : read .null = none)
    (h : found name members = some (write y).sorted) (hy : Carries depth write read y) :
    optional (fieldsOf members) name read = some (some y) := by
  have hread := hy.read_sorted
  unfold optional
  rw [← found, h]
  split
  · next heq => cases heq
  · next heq =>
    rw [Option.some.inj heq, hnull] at hread
    cases hread
  · next heq =>
    rw [← Option.some.inj heq, hread]
    rfl

theorem optional_found {x : Option α} (hnull : read .null = none)
    (h : found name members = x.map fun y => (write y).sorted)
    (hx : ∀ y, x = some y → Carries depth write read y) :
    optional (fieldsOf members) name read = some x := by
  cases x with
  | none =>
    unfold optional
    rw [← found, h]
    rfl
  | some y => exact optional_some hnull h (hx y rfl)

theorem optional_nullable {x : Option α} (hnull : read .null = none)
    (h : found name members = some (writeOption write x).sorted)
    (hx : ∀ y, x = some y → Carries depth write read y) :
    optional (fieldsOf members) name read = some x := by
  cases x with
  | none =>
    unfold optional
    rw [← found, h]
    rfl
  | some y => exact optional_some hnull h (hx y rfl)

theorem plain_writeOption {x : Option α} (hx : ∀ y, x = some y → Carries depth write read y) :
    (writeOption write x).Plain depth := by
  cases x with
  | none => exact .null
  | some y => exact (hx y rfl).plain

/-- A record is carried if it is built from the fields that are found among its members. -/
theorem carries_record {x : α} {names : List String} {build : Fields → Option α}
    (hread : ∀ j, read j = fields? names j >>= build) (hwrite : write x = .object members)
    (hplain : PlainMembers depth members) (hbuild : build (fieldsOf members) = some x) :
    Carries (depth + 1) write read x := by
  refine ⟨?_, ?_⟩
  · rw [hwrite]
    exact .object hplain
  · rw [hread, hwrite]
    exact hbuild

theorem carries_string (s : String) : Carries depth .string readString s := ⟨.string s, rfl⟩

theorem carries_bool (b : Bool) : Carries depth .bool readBool b := ⟨.bool b, rfl⟩

theorem carries_name {all : List α} {name : α → String}
    (hname : ∀ x, (all.find? fun y => name y == name x) = some x) (x : α) :
    Carries depth (fun x => .string (name x)) (readName all name) x := ⟨.string (name x), hname x⟩

theorem readNat_nat {limit n : Nat} (h : n < limit) :
    readNat limit (Json.nat n).sorted = some n := by
  have hread : readNat limit (Json.nat n).sorted =
      if (0 : Int) ≤ n ∧ (n : Int) < limit then some (n : Int).toNat else none := rfl
  rw [hread, if_pos (by omega), Int.toNat_natCast]

theorem carries_nat64 {n : Nat} (h : n < UInt64.size) : Carries depth (.nat ·) readNat64 n :=
  ⟨.nat h, readNat_nat h⟩

theorem carries_nat32 {n : Nat} (h : n < UInt32.size) : Carries depth (.nat ·) readNat32 n :=
  ⟨.nat (Nat.lt_trans h (by decide)), readNat_nat h⟩

theorem readString_sorted (s : String) : readString (Json.string s).sorted = some s := rfl

theorem carries_instant {t : Instant} (h : t.Proper) :
    Carries depth writeInstant readInstant t := by
  refine ⟨.string t.render, ?_⟩
  rw [writeInstant, readInstant, readString_sorted, Option.bind_eq_bind, Option.bind_some,
    Instant.parse?_render h]

theorem carries_rect (r : Rect) : Carries depth writeRect readRect r := by
  refine ⟨.string r.render, ?_⟩
  rw [writeRect, readRect, readString_sorted, Option.bind_eq_bind, Option.bind_some,
    Rect.parse?_render]

theorem carries_list {xs : List α} (h : ∀ x ∈ xs, Carries depth write read x) :
    Carries (depth + 1) (writeList write) (readList read) xs := by
  refine ⟨.array ?_, ?_⟩
  · intro j hj
    obtain ⟨x, hx, rfl⟩ := List.mem_map.mp hj
    exact (h x hx).plain
  · rw [writeList, Json.sorted, Json.sortedItems_eq, readList, mapM_eq_some, List.map_map,
      List.map_map]
    exact List.map_congr_left fun x hx => (h x hx).read_sorted

end Writing

section Reading

variable {α : Type} {depth : Nat} {P : α → Prop} {m : Fields} {name : String}
  {read : Json → Option α}

/-- The fields of a record that was read are parts of it. -/
theorem result_of_fields {names : List String} {j : Json} (hj : j.Result (depth + 1))
    (h : fields? names j = some m) : ∀ field ∈ m, field.2.Result depth := by
  unfold fields? at h
  split at h
  · obtain rfl := Option.some.inj h
    exact hj.members.2
  · split at h
    · obtain rfl := Option.some.inj h
      exact fun field hfield => hj.items _ (List.of_mem_zip hfield).2
    · cases h
  · cases h

section

variable (hm : ∀ field ∈ m, field.2.Result depth)
  (hread : ∀ {j : Json} {x : α}, j.Result depth → read j = some x → P x)
include hm hread

theorem of_required {x : α} (h : required m name read = some x) : P x := by
  obtain ⟨j, hj, hx⟩ := Option.bind_eq_some_iff.mp h
  exact hread (hm _ (Ordered.mem_of_get? hj)) hx

theorem of_defaulted {missing x : α} (hmissing : P missing)
    (h : defaulted m name missing read = some x) : P x := by
  unfold defaulted at h
  split at h
  · obtain rfl := Option.some.inj h
    exact hmissing
  · next j hj => exact hread (hm _ (Ordered.mem_of_get? hj)) h

theorem of_optional {x : Option α} (h : optional m name read = some x) :
    ∀ y, x = some y → P y := by
  unfold optional at h
  split at h
  · obtain rfl := Option.some.inj h
    nofun
  · obtain rfl := Option.some.inj h
    nofun
  · next j _ hj =>
    obtain ⟨y, hy, rfl⟩ := Option.map_eq_some_iff.mp h
    rintro z ⟨⟩
    exact hread (hm _ (Ordered.mem_of_get? hj)) hy

end

theorem of_list {xs : List α} (hread : ∀ {j : Json} {x : α}, j.Result depth → read j = some x → P x)
    {j : Json} (hj : j.Result (depth + 1)) (h : readList read j = some xs) : ∀ x ∈ xs, P x := by
  unfold readList at h
  split at h
  · next items =>
    intro x hx
    have hmem : some x ∈ items.map read := mapM_eq_some.mp h ▸ List.mem_map_of_mem hx
    obtain ⟨j, hmem, hread'⟩ := List.mem_map.mp hmem
    exact hread (hj.items j hmem) hread'
  · cases h

theorem lt_of_readNat {limit n : Nat} {j : Json} (h : readNat limit j = some n) : n < limit := by
  unfold readNat at h
  split at h
  · split at h
    · obtain rfl := Option.some.inj h
      omega
    · cases h
  · cases h

theorem proper_of_readInstant {j : Json} {t : Instant} (h : readInstant j = some t) : t.Proper := by
  obtain ⟨s, -, h⟩ := Option.bind_eq_some_iff.mp h
  exact Instant.proper_of_parse h

end Reading

end Wire

end Replay
