import Mathlib.Data.List.Nodup
import Replay.Proofs.Wire.Record
set_option autoImplicit false

/-!
Altered values. `Fieldwise` says of two objects that they have the same members but for fields which
may be altered in given ways. A record is built from what is found under its names
(`found_altered`), so that it is read alike if each field is (`required_altered`,
`defaulted_altered`, `optional_altered`), and it stays fit to be written if the altered fields do
(`keepsPlain_fieldwise`).
-/

namespace Replay

theorem map_eq_of_forall₂ {α β γ : Type} {f : α → γ} {g : β → γ} {xs : List α} {ys : List β}
    (h : List.Forall₂ (fun x y => f x = g y) xs ys) : xs.map f = ys.map g := by
  rwa [← List.forall₂_eq_eq_eq, List.forall₂_map_left_iff, List.forall₂_map_right_iff]

namespace Wire

inductive Each (R : Json → Json → Prop) : Json → Json → Prop where
  | array {xs ys : List Json} (h : List.Forall₂ R xs ys) : Each R (.array xs) (.array ys)

abbrev Altered := List (String × (Json → Json → Prop))

def Altered.Member (fields : Altered) (m n : String × Json) : Prop :=
  n.1 = m.1 ∧ (n.2 = m.2 ∨ ∃ R, (m.1, R) ∈ fields ∧ R m.2 n.2)

inductive Fieldwise (fields : Altered) : Json → Json → Prop where
  | object {ms ns : Json.Members} (h : List.Forall₂ fields.Member ms ns) :
      Fieldwise fields (.object ms) (.object ns)

/-- Both are read alike, and both are null or neither. -/
structure SameRead {α : Type} (read : Json → Option α) (x y : Json) : Prop where
  read_eq : read y.sorted = read x.sorted
  null_iff : y.sorted = .null ↔ x.sorted = .null

def Altered.ReadAlike {α : Type} (fields : Altered) (ms : Json.Members) (name : String)
    (read : Json → Option α) : Prop :=
  ∀ R, (name, R) ∈ fields → ∀ x y, (name, x) ∈ ms → R x y → SameRead read x y

section ReadAlike

variable {α : Type} {fields : Altered} {ms : Json.Members} {name : String} {read : Json → Option α}

theorem readAlike_of_notMem (h : name ∉ fields.map Prod.fst) : fields.ReadAlike ms name read :=
  fun _ hR => absurd (List.mem_map_of_mem hR) h

theorem readAlike_of_mem (hnames : (fields.map Prod.fst).Nodup) {R : Json → Json → Prop}
    (hR : (name, R) ∈ fields) (h : ∀ x y, (name, x) ∈ ms → R x y → SameRead read x y) :
    fields.ReadAlike ms name read := by
  intro S hS
  obtain ⟨-, rfl⟩ := Prod.mk.inj (List.inj_on_of_nodup_map hnames hR hS rfl)
  exact h

end ReadAlike

theorem optional_of_ne {α : Type} {m : Fields} {name : String} {read : Json → Option α} {j : Json}
    (hj : Ordered.get? name m = some j) (hnull : j ≠ .null) :
    optional m name read = (read j).map some := by
  unfold optional
  rw [hj]
  split
  · next heq => cases heq
  · next heq => exact absurd (Option.some.inj heq) hnull
  · next heq => rw [Option.some.inj heq]

section Fields

variable {α : Type} {fields : Altered} {ms ns : Json.Members}
  (h : List.Forall₂ fields.Member ms ns)

theorem found_cons (name : String) (m : String × Json) (ms : Json.Members) :
    found name (m :: ms) = (found name ms).or (if name = m.1 then some m.2.sorted else none) := by
  rw [← found_put, ← found_append]
  rfl

include h

theorem found_altered (name : String) : found name ns = found name ms ∨
    ∃ R x y, (name, R) ∈ fields ∧ (name, x) ∈ ms ∧ R x y ∧
      found name ms = some x.sorted ∧ found name ns = some y.sorted := by
  induction h with
  | nil => exact Or.inl rfl
  | @cons m n ms ns hm _ ih =>
    obtain ⟨hkey, hvalue⟩ := hm
    rw [found_cons, found_cons, hkey]
    obtain heq | ⟨R, x, y, hR, hmem, hxy, hms, hns⟩ := ih
    · rw [heq]
      -- Only if no later member has the name does it matter whether this one is altered.
      cases found name ms with
      | some j => exact Or.inl rfl
      | none =>
        by_cases hname : name = m.1
        · obtain hsame | ⟨R, hR, hxy⟩ := hvalue
          · exact Or.inl (by rw [hsame])
          · refine Or.inr ⟨R, m.2, n.2, hname ▸ hR, hname ▸ List.mem_cons_self, hxy, ?_, ?_⟩
            · rw [if_pos hname, Option.none_or]
            · rw [if_pos hname, Option.none_or]
        · exact Or.inl (by rw [if_neg hname, if_neg hname])
    · refine Or.inr ⟨R, x, y, hR, List.mem_cons_of_mem m hmem, hxy, ?_, ?_⟩
      · rw [hms, Option.some_or]
      · rw [hns, Option.some_or]

variable {name : String} {read : Json → Option α} (hread : fields.ReadAlike ms name read)
include hread

theorem required_altered : required (fieldsOf ns) name read = required (fieldsOf ms) name read := by
  unfold required
  rw [← found, ← found]
  obtain heq | ⟨R, x, y, hR, hmem, hxy, hms, hns⟩ := found_altered h name
  · rw [heq]
  · rw [hms, hns]
    exact (hread R hR x y hmem hxy).read_eq

theorem defaulted_altered (missing : α) :
    defaulted (fieldsOf ns) name missing read = defaulted (fieldsOf ms) name missing read := by
  unfold defaulted
  rw [← found, ← found]
  obtain heq | ⟨R, x, y, hR, hmem, hxy, hms, hns⟩ := found_altered h name
  · rw [heq]
  · rw [hms, hns]
    exact (hread R hR x y hmem hxy).read_eq

theorem optional_altered : optional (fieldsOf ns) name read = optional (fieldsOf ms) name read := by
  obtain heq | ⟨R, x, y, hR, hmem, hxy, hms, hns⟩ := found_altered h name
  · unfold optional
    rw [← found, ← found, heq]
  · obtain ⟨hsame, hnull⟩ := hread R hR x y hmem hxy
    by_cases hx : x.sorted = .null
    · unfold optional
      rw [← found, ← found, hms, hns, hx, hnull.mpr hx]
    · rw [optional_of_ne hms hx, optional_of_ne hns (mt hnull.mp hx), hsame]

end Fields

section Values

variable {α : Type} {read : Json → Option α}

/-- A record is read alike if what is built from its fields is the same. -/
theorem sameRead_record {names : List String} {build : Fields → Option α}
    (hread : ∀ j, read j = fields? names j >>= build) {ms ns : Json.Members}
    (hbuild : build (fieldsOf ns) = build (fieldsOf ms)) :
    SameRead read (.object ms) (.object ns) where
  read_eq := by
    rw [hread, hread]
    exact hbuild
  null_iff := ⟨nofun, nofun⟩

theorem sameRead_list {R : Json → Json → Prop} (hread : ∀ x y, R x y → SameRead read x y)
    {x y : Json} (h : Each R x y) : SameRead (readList read) x y := by
  obtain ⟨hitems⟩ := h
  refine ⟨?_, nofun, nofun⟩
  simp only [Json.sorted, readList, Json.sortedItems_eq]
  induction hitems with
  | nil => rfl
  | cons hxy _ ih => rw [List.map_cons, List.map_cons, List.mapM_cons, List.mapM_cons, ih,
      (hread _ _ hxy).read_eq]

end Values

section Plain

def KeepsPlain (R : Json → Json → Prop) : Prop :=
  ∀ ⦃depth x y⦄, R x y → x.Plain depth → y.Plain depth

theorem keepsPlain_each {R : Json → Json → Prop} (hR : KeepsPlain R) : KeepsPlain (Each R) := by
  rintro depth _ _ ⟨hitems⟩ hplain
  obtain ⟨inner, rfl, hxs⟩ := hplain.exists_items
  have hpairs := (List.forall₂_and_left _ _).mpr ⟨hxs, hitems⟩
  exact .array (forall_right_of_forall₂ hpairs fun x y ⟨hx, hxy⟩ => hR hxy hx)

theorem keepsPlain_fieldwise {fields : Altered} (h : ∀ field ∈ fields, KeepsPlain field.2) :
    KeepsPlain (Fieldwise fields) := by
  rintro depth _ _ ⟨hmembers⟩ hplain
  obtain ⟨inner, rfl, hms⟩ := hplain.exists_members
  have hpairs := (List.forall₂_and_left _ _).mpr ⟨hms, hmembers⟩
  refine .object (forall_right_of_forall₂ hpairs ?_)
  rintro m n ⟨hm, -, hsame | ⟨R, hR, hmn⟩⟩
  · exact hsame ▸ hm
  · exact h _ hR hmn hm

end Plain

end Wire

end Replay
