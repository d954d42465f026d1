import GoSite.PathElements

/-!
# File systems with symbolic links

A file system is a finite table of places. A path is walked from the root, and
where it meets a symbolic link the walk goes on at the text of the link. Only
entries that are not there yet are created, so that a file system grows, and what
a walk found it finds again.
-/
namespace GoSite.FileTrees

open Paths

abbrev Name := List Char

/-- The names from the root to an entry, with no links among them. -/
abbrev Place := List Name

inductive Leaf (α : Type*) where
  | file (content : α)
  | symlink (text : List Char)
  /-- A pipe, a socket or a device. -/
  | special
  deriving Repr, DecidableEq

inductive Node (α : Type*) where
  | leaf (leaf : Leaf α)
  | dir
  deriving Repr, DecidableEq

variable {α : Type*}

def nodeOf (entries : List (Place × Node α)) (place : Place) : Option (Node α) :=
  if place = [] then some .dir else entries.lookup place

/-- A table of entries, each of them in a directory. -/
structure Files (α : Type*) where
  entries : List (Place × Node α)
  parent : ∀ place name, nodeOf entries (place ++ [name]) ≠ none → nodeOf entries place = some .dir

namespace Files

def node (fs : Files α) (place : Place) : Option (Node α) := nodeOf fs.entries place

/-- What was there is still there. -/
def Extends (fs fs' : Files α) : Prop :=
  ∀ place node, fs.node place = some node → fs'.node place = some node

theorem nodeOf_cons (entries : List (Place × Node α)) (dir : Place) (name : Name) (node : Node α)
    (place : Place) : nodeOf ((dir ++ [name], node) :: entries) place =
      if place = dir ++ [name] then some node else nodeOf entries place := by
  by_cases hplace : place = dir ++ [name]
  · simp [nodeOf, hplace]
  · have hkey : (place == dir ++ [name]) = false := by simpa using hplace
    simp [nodeOf, hplace, List.lookup_cons, hkey]

/-- A file system with nothing but its root. -/
def root : Files α where
  entries := []
  parent := by
    intro place name h
    simp [nodeOf] at h

/-- A new entry in a directory. -/
def insert (fs : Files α) (dir : Place) (name : Name) (node : Node α)
    (hdir : fs.node dir = some .dir) (hfree : fs.node (dir ++ [name]) = none) : Files α where
  entries := (dir ++ [name], node) :: fs.entries
  parent := by
    intro place other h
    rw [nodeOf_cons] at h ⊢
    have hself : dir ≠ dir ++ [name] := by simp
    split_ifs at h with hnew
    · obtain ⟨rfl, -⟩ := List.append_inj' hnew rfl
      rw [if_neg hself]
      exact hdir
    · have hplace := fs.parent place other h
      rw [if_neg]
      · exact hplace
      · rintro rfl
        rw [Files.node] at hfree
        rw [hfree] at hplace
        cases hplace

@[simp] theorem insert_node (fs : Files α) (dir : Place) (name : Name) (node : Node α)
    (hdir : fs.node dir = some .dir) (hfree : fs.node (dir ++ [name]) = none) (place : Place) :
    (fs.insert dir name node hdir hfree).node place =
      if place = dir ++ [name] then some node else fs.node place :=
  nodeOf_cons fs.entries dir name node place

/-- There is nothing below a place where there is nothing. -/
theorem node_below {fs : Files α} {place : Place} (h : fs.node place = none) (name : Name) :
    fs.node (place ++ [name]) = none := by
  by_contra hne
  have hdir := fs.parent place name hne
  rw [node] at h
  rw [h] at hdir
  cases hdir

/-- How the walk to a directory ends. -/
inductive Found where
  | at (dir : Place)
  | missing
  /-- Something on the way is no directory, or there are too many links. -/
  | broken
  deriving Repr, DecidableEq

/-- A walk, with another one for what a link leads to. -/
@[grind] def walkVia (fs : Files α) (follow : Place → List Name → Found) : Place → List Name → Found
  | cur, [] => .at cur
  | cur, name :: rest =>
      if name = [] ∨ name = ['.'] then walkVia fs follow cur rest
      else if name = ['.', '.'] then walkVia fs follow cur.dropLast rest
      else
        match fs.node (cur ++ [name]) with
        | none => .missing
        | some .dir => walkVia fs follow (cur ++ [name]) rest
        | some (.leaf (.symlink text)) =>
            follow (if text.head? = some '/' then [] else cur) (text.splitOn '/' ++ rest)
        | some (.leaf _) => .broken

/-- A walk that follows at most so many links. -/
@[grind] def walkFrom (fs : Files α) : ℕ → Place → List Name → Found
  | 0 => walkVia fs fun _ _ => .broken
  | links + 1 => walkVia fs (walkFrom fs links)

/-- The limit of Linux. -/
def linkLimit : ℕ := 40

def walk (fs : Files α) (path : List Name) : Found := walkFrom fs linkLimit [] path

inductive Lstat (α : Type*) where
  | found (node : Node α)
  | notExist
  | failed
  deriving Repr, DecidableEq

/-- `os.Lstat`: the last element of the path is not followed. -/
def lstat (fs : Files α) (path : List Name) : Lstat α :=
  match path.getLast? with
  | none => .found .dir
  | some name =>
      match fs.walk path.dropLast with
      | .missing => .notExist
      | .broken => .failed
      | .at dir =>
          match fs.node (dir ++ [name]) with
          | none => .notExist
          | some node => .found node

/-- A file, a link or a directory is created where there is nothing. -/
def create (fs : Files α) (path : List Name) (node : Node α) : Option (Files α) :=
  match path.getLast?, fs.walk path.dropLast with
  | some name, .at dir =>
      match hdir : fs.node dir, hfree : fs.node (dir ++ [name]) with
      | some .dir, none => some (fs.insert dir name node hdir hfree)
      | _, _ => none
  | _, _ => none

@[grind] def mkdirAllRev (fs : Files α) : List Name → Option (Files α)
  | [] => some fs
  | name :: parents =>
      match fs.walk (name :: parents).reverse with
      | .at _ => some fs
      | .broken => none
      | .missing =>
          (mkdirAllRev fs parents).bind fun fs => fs.create (name :: parents).reverse .dir

/-- `os.MkdirAll`. -/
def mkdirAll (fs : Files α) (path : List Name) : Option (Files α) := mkdirAllRev fs path.reverse

theorem Extends.refl (fs : Files α) : fs.Extends fs := fun _ _ h => h

theorem Extends.trans {fs fs' fs'' : Files α} (h : fs.Extends fs') (h' : fs'.Extends fs'') :
    fs.Extends fs'' := fun place node hnode => h' place node (h place node hnode)

theorem extends_of_nodes {fs fs' : Files α} {new : Place} {node : Node α}
    (hfree : fs.node new = none)
    (h : ∀ place, fs'.node place = if place = new then some node else fs.node place) :
    fs.Extends fs' := by
  intro place found hfound
  rw [h, if_neg]
  · exact hfound
  · rintro rfl
    rw [hfree] at hfound
    cases hfound

theorem walkVia_mono {fs fs' : Files α} (h : fs.Extends fs')
    {follow follow' : Place → List Name → Found}
    (hfollow : ∀ cur path dir, follow cur path = .at dir → follow' cur path = .at dir)
    {cur : Place} {path : List Name} {dir : Place} (hwalk : walkVia fs follow cur path = .at dir) :
    walkVia fs' follow' cur path = .at dir := by
  induction path generalizing cur with
  | nil => exact hwalk
  | cons name rest ih =>
      rw [walkVia] at hwalk ⊢
      split_ifs at hwalk ⊢ with hskip hup
      · exact ih hwalk
      · exact ih hwalk
      · cases hnode : fs.node (cur ++ [name]) with
        | none =>
            rw [hnode] at hwalk
            cases hwalk
        | some node =>
            rw [hnode] at hwalk
            rw [h _ _ hnode]
            cases node with
            | dir => exact ih hwalk
            | leaf leaf =>
                cases leaf with
                | symlink text => exact hfollow _ _ _ hwalk
                | file content => cases hwalk
                | special => cases hwalk

theorem walkFrom_mono {fs fs' : Files α} (h : fs.Extends fs') {links : ℕ} {cur : Place}
    {path : List Name} {dir : Place} (hwalk : walkFrom fs links cur path = .at dir) :
    walkFrom fs' links cur path = .at dir := by
  induction links generalizing cur path dir with
  | zero => exact walkVia_mono h (fun _ _ _ hnone => by cases hnone) hwalk
  | succ links ih => exact walkVia_mono h (fun _ _ _ hfollow => ih hfollow) hwalk

/-- What a walk found it finds again. -/
theorem walk_mono {fs fs' : Files α} (h : fs.Extends fs') {path : List Name} {dir : Place}
    (hwalk : fs.walk path = .at dir) : fs'.walk path = .at dir := walkFrom_mono h hwalk

/-- A walk goes on into a directory. -/
theorem walkVia_snoc {fs : Files α} {follow : Place → List Name → Found} {name : Name}
    (hname : Plain name)
    (hfollow : ∀ cur path dir, follow cur path = .at dir → fs.node (dir ++ [name]) = some .dir →
      follow cur (path ++ [name]) = .at (dir ++ [name]))
    {cur : Place} {path : List Name} {dir : Place} (hwalk : walkVia fs follow cur path = .at dir)
    (hdir : fs.node (dir ++ [name]) = some .dir) :
    walkVia fs follow cur (path ++ [name]) = .at (dir ++ [name]) := by
  induction path generalizing cur with
  | nil =>
      obtain rfl : cur = dir := by simpa [walkVia] using hwalk
      rw [List.nil_append, walkVia, if_neg (not_or.mpr ⟨hname.1, hname.2.1⟩),
        if_neg hname.2.2.1, hdir, walkVia]
  | cons first rest ih =>
      rw [walkVia] at hwalk
      rw [List.cons_append, walkVia]
      split_ifs at hwalk ⊢ with hskip hup
      · exact ih hwalk
      · exact ih hwalk
      · cases hnode : fs.node (cur ++ [first]) with
        | none =>
            rw [hnode] at hwalk
            cases hwalk
        | some node =>
            rw [hnode] at hwalk
            cases node with
            | dir => exact ih hwalk
            | leaf leaf =>
                cases leaf with
                | symlink text =>
                    have hgo := hfollow _ _ _ hwalk hdir
                    rw [List.append_assoc] at hgo
                    exact hgo
                | file content => cases hwalk
                | special => cases hwalk

theorem walk_snoc {fs : Files α} {path : List Name} {dir : Place} {name : Name}
    (hname : Plain name) (hwalk : fs.walk path = .at dir)
    (hdir : fs.node (dir ++ [name]) = some .dir) : fs.walk (path ++ [name]) = .at (dir ++ [name]) := by
  have hlinks : ∀ links cur path dir, walkFrom fs links cur path = .at dir →
      fs.node (dir ++ [name]) = some .dir →
        walkFrom fs links cur (path ++ [name]) = .at (dir ++ [name]) := by
    intro links
    induction links with
    | zero =>
        intro cur path dir h hnode
        exact walkVia_snoc hname (fun _ _ _ hnone => by cases hnone) h hnode
    | succ links ih =>
        intro cur path dir h hnode
        exact walkVia_snoc hname ih h hnode
  exact hlinks _ _ _ _ hwalk hdir

/-- A walk to a path ends in a directory of the walk before, or follows a link there. -/
theorem walkVia_of_snoc {fs : Files α} {follow : Place → List Name → Found} {name : Name}
    (hname : Plain name)
    (hfollow : ∀ cur path dir, follow cur (path ++ [name]) = .at dir → ∃ before,
      follow cur path = .at before ∧ ((fs.node (before ++ [name]) = some .dir ∧
        dir = before ++ [name]) ∨ ∃ text, fs.node (before ++ [name]) = some (.leaf (.symlink text))))
    {cur : Place} {path : List Name} {dir : Place}
    (hwalk : walkVia fs follow cur (path ++ [name]) = .at dir) : ∃ before,
      walkVia fs follow cur path = .at before ∧ ((fs.node (before ++ [name]) = some .dir ∧
        dir = before ++ [name]) ∨
          ∃ text, fs.node (before ++ [name]) = some (.leaf (.symlink text))) := by
  induction path generalizing cur with
  | nil =>
      refine ⟨cur, rfl, ?_⟩
      rw [List.nil_append, walkVia, if_neg (not_or.mpr ⟨hname.1, hname.2.1⟩),
        if_neg hname.2.2.1] at hwalk
      cases hnode : fs.node (cur ++ [name]) with
      | none =>
          rw [hnode] at hwalk
          cases hwalk
      | some node =>
          rw [hnode] at hwalk
          cases node with
          | dir => exact .inl ⟨rfl, (Found.at.inj hwalk).symm⟩
          | leaf leaf =>
              cases leaf with
              | symlink text => exact .inr ⟨text, rfl⟩
              | file content => cases hwalk
              | special => cases hwalk
  | cons first rest ih =>
      rw [List.cons_append, walkVia] at hwalk
      rw [walkVia]
      split_ifs at hwalk ⊢ with hskip hup
      · exact ih hwalk
      · exact ih hwalk
      · cases hnode : fs.node (cur ++ [first]) with
        | none =>
            rw [hnode] at hwalk
            cases hwalk
        | some node =>
            rw [hnode] at hwalk
            cases node with
            | dir => exact ih hwalk
            | leaf leaf =>
                cases leaf with
                | symlink text =>
                    refine hfollow _ _ _ ?_
                    rw [List.append_assoc]
                    exact hwalk
                | file content => cases hwalk
                | special => cases hwalk

theorem walk_of_snoc {fs : Files α} {path : List Name} {dir : Place} {name : Name}
    (hname : Plain name) (hwalk : fs.walk (path ++ [name]) = .at dir) : ∃ before,
      fs.walk path = .at before ∧ ((fs.node (before ++ [name]) = some .dir ∧
        dir = before ++ [name]) ∨
          ∃ text, fs.node (before ++ [name]) = some (.leaf (.symlink text))) := by
  have hlinks : ∀ links cur path dir, walkFrom fs links cur (path ++ [name]) = .at dir → ∃ before,
      walkFrom fs links cur path = .at before ∧ ((fs.node (before ++ [name]) = some .dir ∧
        dir = before ++ [name]) ∨
          ∃ text, fs.node (before ++ [name]) = some (.leaf (.symlink text))) := by
    intro links
    induction links with
    | zero =>
        intro cur path dir h
        exact walkVia_of_snoc hname (fun _ _ _ hnone => by cases hnone) h
    | succ links ih =>
        intro cur path dir h
        exact walkVia_of_snoc hname ih h
  exact hlinks _ _ _ _ hwalk

theorem lstat_snoc {fs : Files α} {path : List Name} {dir : Place} (hwalk : fs.walk path = .at dir)
    (name : Name) : fs.lstat (path ++ [name]) =
      match fs.node (dir ++ [name]) with
      | none => .notExist
      | some node => .found node := by
  rw [lstat, List.getLast?_concat, List.dropLast_concat]
  simp only [hwalk]

/-- An entry that is found is in a directory. -/
theorem walk_of_lstat {fs : Files α} {path : List Name} {name : Name} {node : Node α}
    (h : fs.lstat (path ++ [name]) = .found node) :
    ∃ dir, fs.walk path = .at dir ∧ fs.node (dir ++ [name]) = some node := by
  rw [lstat, List.getLast?_concat, List.dropLast_concat] at h
  cases hwalk : fs.walk path with
  | «at» dir =>
      simp only [hwalk] at h
      cases hnode : fs.node (dir ++ [name]) with
      | none => simp [hnode] at h
      | some found =>
          simp only [hnode] at h
          exact ⟨dir, rfl, hnode.trans (congrArg some (Lstat.found.inj h))⟩
  | missing => simp [hwalk] at h
  | broken => simp [hwalk] at h

theorem lstat_mono {fs fs' : Files α} (h : fs.Extends fs') {path : List Name} {name : Name}
    {node : Node α} (hfound : fs.lstat (path ++ [name]) = .found node) :
    fs'.lstat (path ++ [name]) = .found node := by
  obtain ⟨dir, hwalk, hnode⟩ := walk_of_lstat hfound
  rw [lstat_snoc (walk_mono h hwalk), h _ _ hnode]

/-- What is created is a new entry of a directory. -/
theorem create_spec {fs fs' : Files α} {path : List Name} {name : Name} {node : Node α}
    (h : fs.create (path ++ [name]) node = some fs') : ∃ dir, fs.walk path = .at dir ∧
      fs.node (dir ++ [name]) = none ∧
        ∀ place, fs'.node place = if place = dir ++ [name] then some node else fs.node place := by
  rw [create, List.getLast?_concat, List.dropLast_concat] at h
  cases hwalk : fs.walk path with
  | «at» dir =>
      simp only [hwalk] at h
      split at h
      · next hdir hfree =>
        refine ⟨dir, rfl, hfree, fun place => ?_⟩
        rw [← Option.some.inj h]
        exact insert_node fs dir name node hdir hfree place
      · cases h
  | missing => simp [hwalk] at h
  | broken => simp [hwalk] at h

theorem create_extends {fs fs' : Files α} {path : List Name} {name : Name} {node : Node α}
    (h : fs.create (path ++ [name]) node = some fs') : fs.Extends fs' := by
  obtain ⟨dir, -, hfree, hnodes⟩ := create_spec h
  exact extends_of_nodes hfree hnodes

theorem mkdirAll_of_walk {fs : Files α} {path : List Name} {dir : Place}
    (h : fs.walk path = .at dir) : fs.mkdirAll path = some fs := by
  rw [mkdirAll]
  cases hrev : path.reverse with
  | nil => rfl
  | cons name parents =>
      rw [mkdirAllRev, ← hrev, List.reverse_reverse]
      simp only [h]

/-- After `os.MkdirAll` the path leads to a directory. -/
theorem mkdirAll_spec {fs fs' : Files α} {path : List Name} (hplain : ∀ name ∈ path, Plain name)
    (h : fs.mkdirAll path = some fs') : fs.Extends fs' ∧ ∃ dir, fs'.walk path = .at dir := by
  rw [mkdirAll] at h
  rw [← List.reverse_reverse path] at hplain ⊢
  generalize path.reverse = rev at h hplain
  induction rev generalizing fs' with
  | nil =>
      obtain rfl := Option.some.inj h
      exact ⟨Extends.refl fs, [], rfl⟩
  | cons name parents ih =>
      rw [mkdirAllRev] at h
      cases hwalk : fs.walk (name :: parents).reverse with
      | «at» dir =>
          simp only [hwalk, Option.some.injEq] at h
          exact ⟨h ▸ Extends.refl fs, dir, h ▸ hwalk⟩
      | broken =>
          simp only [hwalk] at h
          cases h
      | missing =>
          simp only [hwalk] at h
          obtain ⟨middle, hparents, hcreate⟩ := Option.bind_eq_some_iff.mp h
          rw [List.reverse_cons] at hcreate hplain ⊢
          obtain ⟨hextends, -⟩ := ih hparents fun e he => hplain e (List.mem_append_left _ he)
          obtain ⟨dir, hdir, hfree, hnodes⟩ := create_spec hcreate
          have hnew := extends_of_nodes hfree hnodes
          refine ⟨hextends.trans hnew, dir ++ [name], ?_⟩
          refine walk_snoc (hplain name (by simp)) (walk_mono hnew hdir) ?_
          rw [hnodes, if_pos rfl]

/-- What `os.MkdirAll` creates are directories. -/
theorem mkdirAll_new {fs fs' : Files α} {path : List Name} (h : fs.mkdirAll path = some fs')
    (place : Place) (hnew : fs'.node place ≠ fs.node place) : fs'.node place = some .dir := by
  rw [mkdirAll] at h
  generalize path.reverse = rev at h
  induction rev generalizing fs' with
  | nil =>
      obtain rfl := Option.some.inj h
      exact absurd rfl hnew
  | cons name parents ih =>
      rw [mkdirAllRev] at h
      cases hwalk : fs.walk (name :: parents).reverse with
      | «at» dir =>
          simp only [hwalk, Option.some.injEq] at h
          exact absurd (h ▸ rfl) hnew
      | broken =>
          simp only [hwalk] at h
          cases h
      | missing =>
          simp only [hwalk] at h
          obtain ⟨middle, hparents, hcreate⟩ := Option.bind_eq_some_iff.mp h
          rw [List.reverse_cons] at hcreate
          obtain ⟨dir, -, -, hnodes⟩ := create_spec hcreate
          rw [hnodes] at hnew ⊢
          split_ifs at hnew ⊢ with hplace
          · rfl
          · exact ih hnew hparents

/-- What exists lies in directories that exist. -/
theorem node_prefix {fs : Files α} {dir place : Place} (hpre : dir <+: place)
    (h : fs.node dir = none) : fs.node place = none := by
  obtain ⟨below, rfl⟩ := hpre
  induction below using List.reverseRecOn with
  | nil => simpa using h
  | append_singleton below name ih =>
      rw [← List.append_assoc]
      exact node_below ih name

/-- What is not there was not there before. -/
theorem Extends.free {fs fs' : Files α} (h : fs.Extends fs') {place : Place}
    (hfree : fs'.node place = none) : fs.node place = none := by
  cases hnode : fs.node place with
  | none => rfl
  | some node =>
      rw [h place node hnode] at hfree
      cases hfree

/-- `os.MkdirAll` finds the directory, or it creates it in its parent. -/
theorem mkdirAll_snoc {fs fs' : Files α} {path : List Name} {name : Name}
    (h : fs.mkdirAll (path ++ [name]) = some fs') :
    (∃ dir, fs.walk (path ++ [name]) = .at dir ∧ fs' = fs) ∨
      ∃ middle parent, fs.mkdirAll path = some middle ∧ middle.walk path = .at parent ∧
        middle.node (parent ++ [name]) = none ∧ ∀ place, fs'.node place =
          if place = parent ++ [name] then some .dir else middle.node place := by
  rw [mkdirAll, List.reverse_append, List.reverse_singleton, List.singleton_append,
    mkdirAllRev, List.reverse_cons, List.reverse_reverse] at h
  cases hlast : fs.walk (path ++ [name]) with
  | «at» dir =>
      simp only [hlast, Option.some.injEq] at h
      exact .inl ⟨dir, rfl, h.symm⟩
  | broken =>
      simp only [hlast] at h
      cases h
  | missing =>
      simp only [hlast] at h
      obtain ⟨middle, hparents, hcreate⟩ := Option.bind_eq_some_iff.mp h
      obtain ⟨parent, hparent, hfree, hnodes⟩ := create_spec hcreate
      exact .inr ⟨middle, parent, hparents, hparent, hfree, hnodes⟩

/-- In a directory that is there, `os.MkdirAll` creates no more than the last one. -/
theorem mkdirAll_last {fs fs' : Files α} {path : List Name} {name : Name} {dir : Place}
    (hwalk : fs.walk path = .at dir) (h : fs.mkdirAll (path ++ [name]) = some fs') {place : Place}
    (hnew : fs'.node place ≠ fs.node place) : place = dir ++ [name] := by
  obtain ⟨last, -, rfl⟩ | ⟨middle, parent, hparents, hparent, -, hnodes⟩ := mkdirAll_snoc h
  · exact absurd rfl hnew
  · rw [mkdirAll_of_walk hwalk, Option.some.injEq] at hparents
    subst hparents
    rw [hwalk, Found.at.injEq] at hparent
    subst hparent
    rw [hnodes] at hnew
    split_ifs at hnew with hplace
    · exact hplace
    · exact absurd rfl hnew

end Files

end GoSite.FileTrees
