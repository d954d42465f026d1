import Mathlib

/-!
# Disks that are written and cleared

A disk is a tree of directories and files, without links. Directories are made,
files are written over and whole subtrees are removed. Any of these calls may
fail half-way: which directory cannot be made, what a failed write leaves and
what cannot be unlinked are parameters.
-/
namespace GoSite.DiskTrees

/-- The names from the root to an entry. -/
abbrev Place := List (List Char)

inductive Item (α : Type*) where
  | dir
  | file (content : α)
  deriving Repr, DecidableEq

variable {α : Type*}

instance decidableEqDir : (node : Option (Item α)) → Decidable (node = some .dir)
  | none => isFalse (by simp)
  | some .dir => isTrue rfl
  | some (.file _) => isFalse (by simp)

/-- What lies at each place. Everything lies in a directory. -/
structure Disk (α : Type*) where
  node : Place → Option (Item α)
  root : node [] = some .dir
  parent : ∀ place name, node (place ++ [name]) ≠ none → node place = some .dir

/-- A disk with nothing but its root. -/
def blank : Disk α where
  node place := if place = [] then some .dir else none
  root := rfl
  parent := by
    intro place name h
    simp at h

/-- A new entry of a directory, or a new file in place of one. -/
def Disk.put (d : Disk α) (dir : Place) (name : List Char) (item : Item α)
    (hdir : d.node dir = some .dir) (hnode : d.node (dir ++ [name]) ≠ some .dir) : Disk α where
  node place := if place = dir ++ [name] then some item else d.node place
  root := by
    rw [if_neg (by simp), d.root]
  parent := by
    intro place other h
    have hself : dir ≠ dir ++ [name] := by simp
    split_ifs at h with hnew
    · obtain ⟨rfl, -⟩ := List.append_inj' hnew rfl
      rw [if_neg hself]
      exact hdir
    · have hplace := d.parent place other h
      rw [if_neg]
      · exact hplace
      · rintro rfl
        exact hnode hplace

@[simp] theorem put_node (d : Disk α) (dir : Place) (name : List Char) (item : Item α)
    (hdir : d.node dir = some .dir) (hnode : d.node (dir ++ [name]) ≠ some .dir) (place : Place) :
    (d.put dir name item hdir hnode).node place =
      if place = dir ++ [name] then some item else d.node place := rfl

/-- Whatever is on the way to an entry is a directory. -/
theorem dir_of_prefix {d : Disk α} {place more : Place} (h : d.node (place ++ more) ≠ none)
    (hmore : more ≠ []) : d.node place = some .dir := by
  induction more using List.reverseRecOn with
  | nil => exact absurd rfl hmore
  | append_singleton more name ih =>
      rw [← List.append_assoc] at h
      have hdir := d.parent _ _ h
      by_cases hnil : more = []
      · rwa [hnil, List.append_nil] at hdir
      · exact ih (by simp [hdir]) hnil

theorem dir_of_isPrefix {d : Disk α} {place dir : Place} (hdir : d.node dir = some .dir)
    (h : place <+: dir) : d.node place = some .dir := by
  obtain ⟨more, rfl⟩ := h
  by_cases hmore : more = []
  · rwa [hmore, List.append_nil] at hdir
  · exact dir_of_prefix (by simp [hdir]) hmore

/-! ## Making directories -/

/-- Make what is missing on the way from a directory. -/
def mkdirFrom (fails : Place → Bool) (d : Disk α) (cur : Place)
    (hcur : d.node cur = some .dir) : List (List Char) → Disk α × Bool
  | [] => (d, true)
  | name :: rest =>
      match hnode : d.node (cur ++ [name]) with
      | some .dir => mkdirFrom fails d (cur ++ [name]) hnode rest
      | some (.file _) => (d, false)
      | none =>
          if fails (cur ++ [name]) then (d, false)
          else
            mkdirFrom fails (d.put cur name .dir hcur (by simp [hnode])) (cur ++ [name])
              (by simp) rest

/-- `os.MkdirAll`. Below a file or a missing directory there is nothing, so it
makes no difference that the call looks at the longest path first. -/
def mkdirAll (fails : Place → Bool) (d : Disk α) (place : Place) : Disk α × Bool :=
  mkdirFrom fails d [] d.root place

/-- Only directories are made, on the way and where there was nothing. -/
structure MakesOnly (d d' : Disk α) (place : Place) : Prop where
  changed : ∀ p, d'.node p ≠ d.node p → d.node p = none ∧ d'.node p = some .dir ∧ p <+: place

theorem MakesOnly.refl (d : Disk α) (place : Place) : MakesOnly d d place :=
  ⟨fun _ h => absurd rfl h⟩

theorem mkdirFrom_spec (fails : Place → Bool) (rest : List (List Char)) (d : Disk α) (cur : Place)
    (hcur : d.node cur = some .dir) :
    MakesOnly d (mkdirFrom fails d cur hcur rest).1 (cur ++ rest) ∧
      ((mkdirFrom fails d cur hcur rest).2 = true →
        (mkdirFrom fails d cur hcur rest).1.node (cur ++ rest) = some .dir) := by
  induction rest generalizing d cur with
  | nil => exact ⟨.refl d _, fun _ => by simpa [mkdirFrom] using hcur⟩
  | cons name rest ih =>
      have happend : cur ++ name :: rest = cur ++ [name] ++ rest := by simp
      rw [mkdirFrom, happend]
      split
      · next hnode => exact ih d (cur ++ [name]) hnode
      · exact ⟨.refl d _, by simp⟩
      · next hnode =>
          split_ifs with hfails
          · exact ⟨.refl d _, by simp⟩
          · obtain ⟨hmakes, hok⟩ := ih (d.put cur name .dir hcur (by simp [hnode]))
              (cur ++ [name]) (by simp)
            refine ⟨⟨fun p hp => ?_⟩, hok⟩
            by_cases hlater : (mkdirFrom fails (d.put cur name .dir hcur (by simp [hnode]))
                (cur ++ [name]) (by simp) rest).1.node p =
                  (d.put cur name .dir hcur (by simp [hnode])).node p
            · have hself : p = cur ++ [name] := by
                by_contra hne
                rw [hlater, put_node, if_neg hne] at hp
                exact hp rfl
              subst hself
              exact ⟨hnode, by rw [hlater, put_node, if_pos rfl], List.prefix_append _ _⟩
            · obtain ⟨hnone, hdir, hpre⟩ := hmakes.changed p hlater
              rw [put_node] at hnone
              split_ifs at hnone
              exact ⟨hnone, hdir, hpre⟩

theorem mkdirAll_makes (fails : Place → Bool) (d : Disk α) (place : Place) :
    MakesOnly d (mkdirAll fails d place).1 place :=
  (mkdirFrom_spec fails place d [] d.root).1

/-! ## Writing files -/

/-- How a write goes: it may fail before the file is opened, or leave something else
than the content. -/
inductive WriteFault (α : Type*) where
  | none
  | refused
  | cut (left : α)
  deriving Repr, DecidableEq

/-- `os.WriteFile`: a file is created or written over. -/
def writeFile (fault : WriteFault α) (d : Disk α) (place : Place) (content : α) : Disk α × Bool :=
  match place.getLast? with
  | none => (d, false)
  | some name =>
      if h : d.node place.dropLast = some .dir ∧
          d.node (place.dropLast ++ [name]) ≠ some .dir then
        match fault with
        | .none => (d.put place.dropLast name (.file content) h.1 h.2, true)
        | .refused => (d, false)
        | .cut left => (d.put place.dropLast name (.file left) h.1 h.2, false)
      else (d, false)

/-- A write changes at most its own place, where there was no directory, and makes a
file of it. -/
theorem writeFile_changed {fault : WriteFault α} {d : Disk α} {place p : Place} {content : α}
    (h : (writeFile fault d place content).1.node p ≠ d.node p) :
    p = place ∧ d.node place ≠ some .dir ∧
      ∃ c, (writeFile fault d place content).1.node place = some (.file c) := by
  unfold writeFile at h ⊢
  cases hname : place.getLast? with
  | none =>
      rw [hname] at h
      exact absurd rfl h
  | some name =>
      obtain ⟨dir, rfl⟩ := List.getLast?_eq_some_iff.mp hname
      simp only [hname, List.dropLast_concat] at h ⊢
      split_ifs at h ⊢ with hfree
      · cases fault with
        | refused => exact absurd rfl h
        | none | cut left =>
            rw [put_node] at h
            split_ifs at h with hself
            · exact ⟨hself, hfree.2, _, by rw [put_node, if_pos rfl]⟩
            · exact absurd rfl h
      · exact absurd rfl h

theorem writeFile_ok {fault : WriteFault α} {d : Disk α} {place : Place} {content : α}
    (h : (writeFile fault d place content).2 = true) :
    (writeFile fault d place content).1.node place = some (.file content) := by
  unfold writeFile at h ⊢
  cases hname : place.getLast? with
  | none => simp [hname] at h
  | some name =>
      obtain ⟨dir, rfl⟩ := List.getLast?_eq_some_iff.mp hname
      simp only [hname, List.dropLast_concat] at h ⊢
      split_ifs at h ⊢ with hfree
      cases fault with
      | none => rw [put_node, if_pos rfl]
      | refused | cut left => cases h

/-! ## Removing -/

/-- `os.RemoveAll`. What cannot be unlinked stays, with the directories it lies in. -/
def removeAll (stuck : List Place) (d : Disk α) (place : Place) : Disk α where
  node p :=
    if place <+: p ∧ p ≠ [] ∧ ¬ ∃ q ∈ stuck, p <+: q ∧ (d.node q).isSome then none else d.node p
  root := by
    rw [if_neg (by simp), d.root]
  parent := by
    intro p name h
    split_ifs at h with hgone
    · exact absurd rfl h
    · have hdir := d.parent p name h
      rw [if_neg]
      · exact hdir
      · rintro ⟨hp, hne, hstuck⟩
        have hname : p <+: p ++ [name] := List.prefix_append _ _
        refine hgone ⟨hp.trans hname, by simp, ?_⟩
        rintro ⟨q, hq, hpre, hsome⟩
        exact hstuck ⟨q, hq, hname.trans hpre, hsome⟩

@[simp] theorem removeAll_node (stuck : List Place) (d : Disk α) (place p : Place) :
    (removeAll stuck d place).node p =
      if place <+: p ∧ p ≠ [] ∧ ¬ ∃ q ∈ stuck, p <+: q ∧ (d.node q).isSome then none
      else d.node p := rfl

/-! ## The files of a disk -/

/-- The content of the file at a place. -/
def Disk.contentAt (d : Disk α) (place : Place) : Option α :=
  match d.node place with
  | some (.file content) => some content
  | _ => none

theorem blank_contentAt (p : Place) : (blank : Disk α).contentAt p = none := by
  by_cases hp : p = [] <;> simp [Disk.contentAt, blank, hp]

theorem contentAt_mkdirAll (fails : Place → Bool) (d : Disk α) (place p : Place) :
    (mkdirAll fails d place).1.contentAt p = d.contentAt p := by
  by_cases hsame : (mkdirAll fails d place).1.node p = d.node p
  · rw [Disk.contentAt, Disk.contentAt, hsame]
  · obtain ⟨hnone, hdir, -⟩ := (mkdirAll_makes fails d place).changed p hsame
    rw [Disk.contentAt, Disk.contentAt, hnone, hdir]

theorem contentAt_writeFile_other {fault : WriteFault α} {d : Disk α} {place p : Place}
    {content : α} (h : p ≠ place) :
    (writeFile fault d place content).1.contentAt p = d.contentAt p := by
  by_cases hsame : (writeFile fault d place content).1.node p = d.node p
  · rw [Disk.contentAt, Disk.contentAt, hsame]
  · exact absurd (writeFile_changed hsame).1 h

theorem contentAt_writeFile {fault : WriteFault α} {d : Disk α} {place : Place} {content : α}
    (h : (writeFile fault d place content).2 = true) (p : Place) :
    (writeFile fault d place content).1.contentAt p =
      if p = place then some content else d.contentAt p := by
  split_ifs with hp
  · rw [hp, Disk.contentAt, writeFile_ok h]
  · exact contentAt_writeFile_other hp

/-- A removal takes files away. -/
theorem contentAt_removeAll_of_none {d : Disk α} {p : Place} (h : d.contentAt p = none)
    (stuck : List Place) (place : Place) : (removeAll stuck d place).contentAt p = none := by
  rw [Disk.contentAt, removeAll_node] at *
  split_ifs
  · rfl
  · exact h

/-- Where nothing is in the way, no file is left below the place. -/
theorem contentAt_removeAll {d : Disk α} {place p : Place} (h : place <+: p) :
    (removeAll [] d place).contentAt p = none := by
  by_cases hp : p = []
  · rw [hp, Disk.contentAt, (removeAll [] d place).root]
  · rw [Disk.contentAt, removeAll_node, if_pos ⟨h, hp, by simp⟩]

/-- The files after some writes, each of which replaces what was there. -/
def overwrite (files : List (Place × α)) (before : Place → Option α) : Place → Option α :=
  files.foldl (fun content file => Function.update content file.1 (some file.2)) before

theorem overwrite_append (files more : List (Place × α)) (before : Place → Option α) :
    overwrite (files ++ more) before = overwrite more (overwrite files before) := by
  rw [overwrite, List.foldl_append]
  rfl

/-- What was written, or else what was there. -/
theorem overwrite_eq_or (files : List (Place × α)) (before : Place → Option α) (p : Place) :
    overwrite files before p = (overwrite files (fun _ => none) p).or (before p) := by
  induction files using List.reverseRecOn with
  | nil => simp [overwrite]
  | append_singleton files file ih =>
      rw [overwrite_append, overwrite_append]
      by_cases hp : p = file.1
      · simp [overwrite, hp]
      · simpa [overwrite, hp] using ih

end GoSite.DiskTrees
