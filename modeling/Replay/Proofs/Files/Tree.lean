import Replay.Files.Tree
set_option autoImplicit false

namespace Replay

namespace Files

theorem parts_ne_nil (s : List Char) : parts s ≠ [] := by
  fun_cases parts s <;> simp [*]

theorem parts_append_slash (s rest : List Char) :
    parts (s ++ '/' :: rest) = parts s ++ parts rest := by
  induction s with
  | nil => rfl
  | cons c s ih =>
    simp only [List.cons_append, parts, ih]
    split
    · rfl
    · cases hs : parts s with
      | nil => exact absurd hs (parts_ne_nil s)
      | cons p ps => rfl

/-- The name of a file or directory: a part of a path that leads somewhere new. -/
structure IsName (name : String) : Prop where
  no_slash : '/' ∉ name.toList
  not_stay : isStay name.toList = false
  not_up : name.toList ≠ ['.', '.']

theorem IsName.parts_eq {name : String} (h : IsName name) : parts name.toList = [name.toList] := by
  have hno : '/' ∉ name.toList := h.no_slash
  generalize name.toList = s at hno
  induction s with
  | nil => rfl
  | cons c s ih =>
    have hc : '/' ≠ c := List.ne_of_not_mem_cons hno
    have hs : '/' ∉ s := List.not_mem_of_not_mem_cons hno
    rw [parts, if_neg hc.symm, ih hs]

theorem parts_join {name : String} (h : IsName name) (directory : String) :
    ∃ ps, parts (join directory name).toList = ps ++ [name.toList] := by
  have hname := h.parts_eq
  unfold join
  split
  · exact ⟨[], hname⟩
  · split
    · next hslash =>
      -- The slash at the end of the directory is the one before the name.
      obtain ⟨s, hs⟩ := List.getLast?_eq_some_iff.mp (eq_of_beq hslash)
      refine ⟨parts s, ?_⟩
      rw [String.toList_append, hs, List.append_assoc, List.singleton_append, parts_append_slash,
        hname]
    · refine ⟨parts directory.toList, ?_⟩
      rw [String.toList_append, String.toList_append, List.append_assoc, ← hname,
        ← parts_append_slash]
      rfl

end Files

namespace FileTree

variable {t after : FileTree} {path text : String}

theorem follow_name {name : String} (h : Files.IsName name) {l place : Location}
    (hl : t.follow l name.toList = some place) : place = l ++ [name] := by
  unfold follow at hl
  rw [h.not_stay, if_neg h.not_up, String.ofList_toList] at hl
  split at hl
  · cases hl
  · exact (Option.some.inj hl).symm

theorem locate_join {name directory : String} (h : Files.IsName name) {l : Location}
    (hl : t.locate (Files.join directory name) = some l) : l.getLast? = some name := by
  obtain ⟨ps, hps⟩ := Files.parts_join h directory
  rw [locate, hps, List.foldlM_append] at hl
  obtain ⟨before, -, hl⟩ := Option.bind_eq_some_iff.mp hl
  rw [List.foldlM_cons] at hl
  obtain ⟨place, hplace, hl⟩ := Option.bind_eq_some_iff.mp hl
  obtain rfl := Option.some.inj hl
  rw [follow_name h hplace, List.getLast?_concat]

theorem write_eq_some (h : t.write path text = some after) :
    ∃ l, t.locate path = some l ∧ after = { t with files := Ordered.insert l text t.files } := by
  unfold write at h
  split at h
  · cases h
  · obtain ⟨l, hl, h⟩ := Option.bind_eq_some_iff.mp h
    split at h
    · cases h
    · exact ⟨l, hl, (Option.some.inj h).symm⟩

theorem locate_write (h : t.write path text = some after) (other : String) :
    after.locate other = t.locate other := by
  obtain ⟨l, -, rfl⟩ := write_eq_some h
  rfl

theorem read_of_write (h : t.write path text = some after) : after.read path = some text := by
  have hplace := locate_write h path
  obtain ⟨l, hl, rfl⟩ := write_eq_some h
  rw [read, hplace, hl]
  exact Ordered.get?_insert_self l text t.files

theorem read_of_write_of_ne (h : t.write path text = some after) {other : String}
    (hne : t.locate other ≠ t.locate path) : after.read other = t.read other := by
  have hplace := locate_write h other
  obtain ⟨l, hl, rfl⟩ := write_eq_some h
  rw [read, hplace, read]
  cases hother : t.locate other with
  | none => rfl
  | some l' =>
    have hne : l' ≠ l := fun heq => hne (by rw [hother, hl, heq])
    exact Ordered.get?_insert_of_ne hne text t.files

theorem of_attempt {ε α : Type} {change : FileTree → Option FileTree} {fault : ε}
    {next : StateM FileTree (Except ε α)} {t after : FileTree} {a : α}
    (h : (attempt change >>= fun made => if !made then pure (.error fault) else next) t =
      (.ok a, after)) :
    ∃ changed, change t = some changed ∧ next changed = (.ok a, after) := by
  have hbind (next : Bool → StateM FileTree (Except ε α)) : (attempt change >>= next) t =
      next (attempt change t).1 (attempt change t).2 := rfl
  rw [hbind, attempt] at h
  split at h
  · next changed hchange => exact ⟨changed, hchange, h⟩
  · cases (Prod.mk.inj h).1

end FileTree

end Replay
