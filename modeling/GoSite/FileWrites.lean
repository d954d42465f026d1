import GoSite.FileTrees

/-!
# Files that are read and written

A file is opened at the end of its path, behind every link on the way. It is overwritten
in its place, or created where there is nothing yet, so that the directories and links of
a file system stay what they are. A directory lists its entries by their names.
-/
namespace GoSite.FileTrees.Files

open Paths

variable {α : Type*}

theorem node_nil (fs : Files α) : fs.node [] = some .dir := rfl

/-- A file with another content. -/
def overwrite (fs : Files α) (dir : Place) (name : Name) (old new : α)
    (hfile : fs.node (dir ++ [name]) = some (.leaf (.file old))) : Files α where
  entries := (dir ++ [name], .leaf (.file new)) :: fs.entries
  parent := by
    intro place other h
    rw [nodeOf_cons] at h ⊢
    have hplace : nodeOf fs.entries place = some .dir := by
      split_ifs at h with hnew
      · refine fs.parent place other ?_
        rw [hnew]
        exact hfile.trans_ne (by simp)
      · exact fs.parent place other h
    rw [if_neg]
    · exact hplace
    · rintro rfl
      rw [node, hplace] at hfile
      cases hfile

@[simp] theorem overwrite_node (fs : Files α) (dir : Place) (name : Name) (old new : α)
    (hfile : fs.node (dir ++ [name]) = some (.leaf (.file old))) (place : Place) :
    (fs.overwrite dir name old new hfile).node place =
      if place = dir ++ [name] then some (.leaf (.file new)) else fs.node place :=
  nodeOf_cons fs.entries dir name _ place

/-- A table of entries that have their directories in it. -/
def ofEntries (entries : List (Place × Node α))
    (hparents : ∀ e ∈ entries, nodeOf entries e.1.dropLast = some .dir) : Files α where
  entries := entries
  parent := by
    intro place name h
    obtain ⟨node, hnode⟩ := Option.ne_none_iff_exists'.mp h
    rw [nodeOf, if_neg (by simp)] at hnode
    obtain ⟨l₁, l₂, hsplit, -⟩ := List.lookup_eq_some_iff.mp hnode
    have hdir := hparents (place ++ [name], node) (by rw [hsplit]; simp)
    rwa [List.dropLast_concat] at hdir

/-- Where a path ends: in a directory, or at a name in one that is neither a directory
nor a link. -/
inductive Reached where
  | dir (place : Place)
  | entry (dir : Place) (name : Name)
  | nowhere
  deriving Repr, DecidableEq

/-- A file has no path behind it. -/
def Reached.last (dir : Place) (name : Name) : List Name → Reached
  | [] => .entry dir name
  | _ :: _ => .nowhere

/-- A path to its end, with another walk for what a link leads to. -/
@[grind] def reachVia (fs : Files α) (follow : Place → List Name → Reached) :
    Place → List Name → Reached
  | cur, [] => .dir cur
  | cur, name :: rest =>
      if name = [] ∨ name = ['.'] then reachVia fs follow cur rest
      else if name = ['.', '.'] then reachVia fs follow cur.dropLast rest
      else
        match fs.node (cur ++ [name]) with
        | some .dir => reachVia fs follow (cur ++ [name]) rest
        | some (.leaf (.symlink text)) =>
            follow (if text.head? = some '/' then [] else cur) (text.splitOn '/' ++ rest)
        | _ => .last cur name rest

/-- A path to its end, behind at most so many links. -/
@[grind] def reachFrom (fs : Files α) : ℕ → Place → List Name → Reached
  | 0 => reachVia fs fun _ _ => .nowhere
  | links + 1 => reachVia fs (reachFrom fs links)

def reach (fs : Files α) (path : List Name) : Reached := reachFrom fs linkLimit [] path

/-- `os.Stat`, with `none` for its errors. -/
def stat (fs : Files α) (path : List Name) : Option (Node α) :=
  match fs.reach path with
  | .dir _ => some .dir
  | .entry dir name => fs.node (dir ++ [name])
  | .nowhere => none

/-- `os.ReadFile`. -/
def readFile (fs : Files α) (path : List Name) : Option α :=
  match fs.reach path with
  | .entry dir name =>
      match fs.node (dir ++ [name]) with
      | some (.leaf (.file content)) => some content
      | _ => none
  | _ => none

/-- `os.WriteFile`. -/
def writeFile (fs : Files α) (path : List Name) (content : α) : Option (Files α) :=
  match fs.reach path with
  | .entry dir name =>
      match hdir : fs.node dir, hentry : fs.node (dir ++ [name]) with
      | some .dir, none => some (fs.insert dir name (.leaf (.file content)) hdir hentry)
      | _, some (.leaf (.file old)) => some (fs.overwrite dir name old content hentry)
      | _, _ => none
  | _ => none

/-- The names in a directory. -/
def namesIn (fs : Files α) (place : Place) : List Name :=
  (fs.entries.filterMap fun e => if e.1.dropLast = place then e.1.getLast? else none).dedup

/-- `os.ReadDir`: the entries by their names. -/
def readDir (fs : Files α) (path : List Name) : Option (List (Name × Node α)) :=
  match fs.walk path with
  | .at place =>
      some (((fs.namesIn place).insertionSort (· ≤ ·)).filterMap fun name =>
        (fs.node (place ++ [name])).map fun node => (name, node))
  | _ => none

/-! ## Directories and links that stay -/

/-- What was there is still there, files with another content perhaps. -/
def Keeps (fs fs' : Files α) : Prop :=
  ∀ place node, fs.node place = some node → fs'.node place = some node ∨
    ∃ old new, node = .leaf (.file old) ∧ fs'.node place = some (.leaf (.file new))

theorem Keeps.refl (fs : Files α) : fs.Keeps fs := fun _ _ h => .inl h

theorem Extends.keeps {fs fs' : Files α} (h : fs.Extends fs') : fs.Keeps fs' :=
  fun place node hnode => .inl (h place node hnode)

theorem Keeps.trans {fs fs' fs'' : Files α} (h : fs.Keeps fs') (h' : fs'.Keeps fs'') :
    fs.Keeps fs'' := by
  intro place node hnode
  rcases h place node hnode with hsame | ⟨old, new, rfl, hnew⟩
  · exact h' place node hsame
  · rcases h' place _ hnew with hsame | ⟨old', new', -, hnew'⟩
    · exact .inr ⟨old, new, rfl, hsame⟩
    · exact .inr ⟨old, new', rfl, hnew'⟩

theorem Keeps.dir {fs fs' : Files α} (h : fs.Keeps fs') {place : Place}
    (hdir : fs.node place = some .dir) : fs'.node place = some .dir := by
  rcases h place _ hdir with hsame | ⟨old, new, hfile, -⟩
  · exact hsame
  · cases hfile

theorem Keeps.symlink {fs fs' : Files α} (h : fs.Keeps fs') {place : Place} {text : List Char}
    (hlink : fs.node place = some (.leaf (.symlink text))) :
    fs'.node place = some (.leaf (.symlink text)) := by
  rcases h place _ hlink with hsame | ⟨old, new, hfile, -⟩
  · exact hsame
  · cases hfile

/-- A file is written where there was none, or where there was one. -/
theorem keeps_of_file {fs fs' : Files α} {new : Place} {content : α}
    (hfree : fs.node new = none ∨ ∃ old, fs.node new = some (.leaf (.file old)))
    (h : ∀ place, fs'.node place =
      if place = new then some (.leaf (.file content)) else fs.node place) : fs.Keeps fs' := by
  intro place node hnode
  rw [h]
  split_ifs with hplace
  · subst hplace
    rcases hfree with hfree | ⟨old, hold⟩
    · rw [hfree] at hnode
      cases hnode
    · rw [hold] at hnode
      exact .inr ⟨old, content, (Option.some.inj hnode).symm, rfl⟩
  · exact .inl hnode

/-- What a walk led to is there as long as directories and links stay. -/
theorem walkVia_keeps {fs fs' : Files α} (h : fs.Keeps fs')
    {follow follow' : Place → List Name → Found}
    (hfollow : ∀ cur path dir, follow cur path = .at dir → follow' cur path = .at dir)
    {cur : Place} {path : List Name} {dir : Place} (hwalk : walkVia fs follow cur path = .at dir) :
    walkVia fs' follow' cur path = .at dir := by
  induction path generalizing cur with
  | nil => exact hwalk
  | cons name rest ih =>
      rw [walkVia] at hwalk ⊢
      split_ifs at hwalk ⊢ with hskip hup
      · exact ih hwalk
      · exact ih hwalk
      · cases hnode : fs.node (cur ++ [name]) with
        | none =>
            rw [hnode] at hwalk
            cases hwalk
        | some node =>
            rw [hnode] at hwalk
            cases node with
            | dir =>
                rw [h.dir hnode]
                exact ih hwalk
            | leaf leaf =>
                cases leaf with
                | symlink text =>
                    rw [h.symlink hnode]
                    exact hfollow _ _ _ hwalk
                | file content => cases hwalk
                | special => cases hwalk

theorem walk_keeps {fs fs' : Files α} (h : fs.Keeps fs') {path : List Name} {dir : Place}
    (hwalk : fs.walk path = .at dir) : fs'.walk path = .at dir := by
  have hlinks : ∀ links cur path dir, walkFrom fs links cur path = .at dir →
      walkFrom fs' links cur path = .at dir := by
    intro links
    induction links with
    | zero => exact fun _ _ _ => walkVia_keeps h fun _ _ _ hnone => by cases hnone
    | succ links ih => exact fun _ _ _ => walkVia_keeps h ih
  exact hlinks _ _ _ _ hwalk

/-! ## The ends of paths -/

theorem reachVia_dir_iff {fs : Files α} {follow : Place → List Name → Reached}
    {follow' : Place → List Name → Found}
    (hfollow : ∀ cur path dir, follow cur path = .dir dir ↔ follow' cur path = .at dir)
    {cur : Place} {path : List Name} {dir : Place} :
    reachVia fs follow cur path = .dir dir ↔ walkVia fs follow' cur path = .at dir := by
  induction path generalizing cur with
  | nil => simp [reachVia, walkVia]
  | cons name rest ih =>
      rw [reachVia, walkVia]
      split_ifs with hskip hup
      · exact ih
      · exact ih
      · cases hnode : fs.node (cur ++ [name]) with
        | none => cases rest <;> simp [Reached.last]
        | some node =>
            cases node with
            | dir => exact ih
            | leaf leaf =>
                cases leaf with
                | symlink text => exact hfollow _ _ _
                | file content => cases rest <;> simp [Reached.last]
                | special => cases rest <;> simp [Reached.last]

/-- A path ends in a directory when the walk leads there. -/
theorem reach_dir_iff {fs : Files α} {path : List Name} {dir : Place} :
    fs.reach path = .dir dir ↔ fs.walk path = .at dir := by
  have hlinks : ∀ links cur path dir,
      reachFrom fs links cur path = .dir dir ↔ walkFrom fs links cur path = .at dir := by
    intro links
    induction links with
    | zero => exact fun _ _ _ => reachVia_dir_iff fun _ _ _ => by simp
    | succ links ih => exact fun _ _ _ => reachVia_dir_iff ih
  exact hlinks _ _ _ _

theorem reachVia_snoc {fs : Files α} {follow : Place → List Name → Reached}
    {follow' : Place → List Name → Found} {name : Name} (hname : Plain name)
    (hfollow : ∀ cur path dir, follow' cur path = .at dir → fs.node (dir ++ [name]) ≠ some .dir →
      (∀ text, fs.node (dir ++ [name]) ≠ some (.leaf (.symlink text))) →
        follow cur (path ++ [name]) = .entry dir name)
    {cur : Place} {path : List Name} {dir : Place} (hwalk : walkVia fs follow' cur path = .at dir)
    (hdir : fs.node (dir ++ [name]) ≠ some .dir)
    (hlink : ∀ text, fs.node (dir ++ [name]) ≠ some (.leaf (.symlink text))) :
    reachVia fs follow cur (path ++ [name]) = .entry dir name := by
  induction path generalizing cur with
  | nil =>
      obtain rfl : cur = dir := by simpa [walkVia] using hwalk
      rw [List.nil_append, reachVia, if_neg (not_or.mpr ⟨hname.1, hname.2.1⟩),
        if_neg hname.2.2.1]
      cases hnode : fs.node (cur ++ [name]) with
      | none => rfl
      | some node =>
          cases node with
          | dir => exact absurd hnode hdir
          | leaf leaf =>
              cases leaf with
              | symlink text => exact absurd hnode (hlink text)
              | file content => rfl
              | special => rfl
  | cons first rest ih =>
      rw [walkVia] at hwalk
      rw [List.cons_append, reachVia]
      split_ifs at hwalk ⊢ with hskip hup
      · exact ih hwalk
      · exact ih hwalk
      · cases hnode : fs.node (cur ++ [first]) with
        | none =>
            rw [hnode] at hwalk
            cases hwalk
        | some node =>
            rw [hnode] at hwalk
            cases node with
            | dir => exact ih hwalk
            | leaf leaf =>
                cases leaf with
                | symlink text =>
                    have hgo := hfollow _ _ _ hwalk hdir hlink
                    rw [List.append_assoc] at hgo
                    exact hgo
                | file content => cases hwalk
                | special => cases hwalk

/-- A path ends at an entry of the directory before it, or where there is nothing yet. -/
theorem reach_snoc {fs : Files α} {path : List Name} {dir : Place} {name : Name}
    (hname : Plain name) (hwalk : fs.walk path = .at dir)
    (hdir : fs.node (dir ++ [name]) ≠ some .dir)
    (hlink : ∀ text, fs.node (dir ++ [name]) ≠ some (.leaf (.symlink text))) :
    fs.reach (path ++ [name]) = .entry dir name := by
  have hlinks : ∀ links cur path dir, walkFrom fs links cur path = .at dir →
      fs.node (dir ++ [name]) ≠ some .dir →
      (∀ text, fs.node (dir ++ [name]) ≠ some (.leaf (.symlink text))) →
        reachFrom fs links cur (path ++ [name]) = .entry dir name := by
    intro links
    induction links with
    | zero => exact fun _ _ _ => reachVia_snoc hname fun _ _ _ hnone => by cases hnone
    | succ links ih => exact fun _ _ _ => reachVia_snoc hname ih
  exact hlinks _ _ _ _ hwalk hdir hlink

theorem reachVia_keeps {fs fs' : Files α} (h : fs.Keeps fs') {dir : Place} {name : Name}
    (hend : fs.node (dir ++ [name]) ≠ none ∨
      ∃ content, fs'.node (dir ++ [name]) = some (.leaf (.file content)))
    {follow follow' : Place → List Name → Reached}
    (hfollow : ∀ cur path, follow cur path = .entry dir name → follow' cur path = .entry dir name)
    {cur : Place} {path : List Name} (hreach : reachVia fs follow cur path = .entry dir name) :
    reachVia fs' follow' cur path = .entry dir name := by
  induction path generalizing cur with
  | nil => cases hreach
  | cons first rest ih =>
      rw [reachVia] at hreach ⊢
      split_ifs at hreach ⊢ with hskip hup
      · exact ih hreach
      · exact ih hreach
      · cases hnode : fs.node (cur ++ [first]) with
        | none =>
            rw [hnode] at hreach
            cases rest with
            | nil =>
                obtain ⟨rfl, rfl⟩ := Reached.entry.inj hreach
                rcases hend with hend | ⟨content, hend⟩
                · exact absurd hnode hend
                · rw [hend]
                  rfl
            | cons next rest => cases hreach
        | some node =>
            rw [hnode] at hreach
            rcases h _ _ hnode with hsame | ⟨old, new, rfl, hnew⟩
            · rw [hsame]
              cases node with
              | dir => exact ih hreach
              | leaf leaf =>
                  cases leaf with
                  | symlink text => exact hfollow _ _ hreach
                  | file content => exact hreach
                  | special => exact hreach
            · rw [hnew]
              exact hreach

/-- The end of a path stays where it is, unless something else comes into being there. -/
theorem reach_keeps {fs fs' : Files α} (h : fs.Keeps fs') {path : List Name} {dir : Place}
    {name : Name}
    (hend : fs.node (dir ++ [name]) ≠ none ∨
      ∃ content, fs'.node (dir ++ [name]) = some (.leaf (.file content)))
    (hreach : fs.reach path = .entry dir name) : fs'.reach path = .entry dir name := by
  have hlinks : ∀ links cur path, reachFrom fs links cur path = .entry dir name →
      reachFrom fs' links cur path = .entry dir name := by
    intro links
    induction links with
    | zero => exact fun _ _ => reachVia_keeps h hend fun _ _ hnone => by cases hnone
    | succ links ih => exact fun _ _ => reachVia_keeps h hend ih
  exact hlinks _ _ _ hreach

theorem reachVia_entry {fs : Files α} {follow : Place → List Name → Reached} {dir : Place}
    {name : Name} (hfollow : ∀ cur path, follow cur path = .entry dir name →
      fs.node (dir ++ [name]) ≠ some .dir ∧
        ∀ text, fs.node (dir ++ [name]) ≠ some (.leaf (.symlink text)))
    {cur : Place} {path : List Name} (hreach : reachVia fs follow cur path = .entry dir name) :
    fs.node (dir ++ [name]) ≠ some .dir ∧
      ∀ text, fs.node (dir ++ [name]) ≠ some (.leaf (.symlink text)) := by
  induction path generalizing cur with
  | nil => cases hreach
  | cons first rest ih =>
      rw [reachVia] at hreach
      split_ifs at hreach with hskip hup
      · exact ih hreach
      · exact ih hreach
      · have hlast : Reached.last cur first rest = .entry dir name →
            cur ++ [first] = dir ++ [name] := by
          cases rest with
          | nil =>
              intro hend
              obtain ⟨rfl, rfl⟩ := Reached.entry.inj hend
              rfl
          | cons next rest => exact fun hend => by cases hend
        cases hnode : fs.node (cur ++ [first]) with
        | none =>
            rw [hnode] at hreach
            rw [← hlast hreach, hnode]
            simp
        | some node =>
            rw [hnode] at hreach
            cases node with
            | dir => exact ih hreach
            | leaf leaf =>
                cases leaf with
                | symlink text => exact hfollow _ _ hreach
                | file content =>
                    rw [← hlast hreach, hnode]
                    simp
                | special =>
                    rw [← hlast hreach, hnode]
                    simp

/-- What a path ends at beside a directory is neither a directory nor a link. -/
theorem reach_entry {fs : Files α} {path : List Name} {dir : Place} {name : Name}
    (h : fs.reach path = .entry dir name) : fs.node (dir ++ [name]) ≠ some .dir ∧
      ∀ text, fs.node (dir ++ [name]) ≠ some (.leaf (.symlink text)) := by
  have hlinks : ∀ links cur path, reachFrom fs links cur path = .entry dir name →
      fs.node (dir ++ [name]) ≠ some .dir ∧
        ∀ text, fs.node (dir ++ [name]) ≠ some (.leaf (.symlink text)) := by
    intro links
    induction links with
    | zero => exact fun _ _ => reachVia_entry fun _ _ hnone => by cases hnone
    | succ links ih => exact fun _ _ => reachVia_entry ih
  exact hlinks _ _ _ h

theorem parent_dir {fs : Files α} {place : Place} (h : fs.node place = some .dir) :
    fs.node place.dropLast = some .dir := by
  obtain rfl | ⟨dir, name, rfl⟩ := List.eq_nil_or_concat place
  · exact h
  · rw [List.concat_eq_append] at h ⊢
    rw [List.dropLast_concat]
    refine fs.parent dir name ?_
    exact h.trans_ne (Option.some_ne_none _)

theorem walkVia_dir {fs : Files α} {follow : Place → List Name → Found}
    (hfollow : ∀ cur path dir, fs.node cur = some .dir → follow cur path = .at dir →
      fs.node dir = some .dir)
    {cur : Place} {path : List Name} {dir : Place} (hcur : fs.node cur = some .dir)
    (hwalk : walkVia fs follow cur path = .at dir) : fs.node dir = some .dir := by
  induction path generalizing cur with
  | nil =>
      obtain rfl := Found.at.inj hwalk
      exact hcur
  | cons name rest ih =>
      rw [walkVia] at hwalk
      split_ifs at hwalk with hskip hup
      · exact ih hcur hwalk
      · exact ih (parent_dir hcur) hwalk
      · cases hnode : fs.node (cur ++ [name]) with
        | none =>
            rw [hnode] at hwalk
            cases hwalk
        | some node =>
            rw [hnode] at hwalk
            cases node with
            | dir => exact ih hnode hwalk
            | leaf leaf =>
                cases leaf with
                | symlink text =>
                    refine hfollow _ _ _ ?_ hwalk
                    split_ifs
                    · exact node_nil fs
                    · exact hcur
                | file content => cases hwalk
                | special => cases hwalk

/-- A walk leads to a directory. -/
theorem walk_dir {fs : Files α} {path : List Name} {dir : Place} (h : fs.walk path = .at dir) :
    fs.node dir = some .dir := by
  have hlinks : ∀ links cur path dir, fs.node cur = some .dir →
      walkFrom fs links cur path = .at dir → fs.node dir = some .dir := by
    intro links
    induction links with
    | zero => exact fun _ _ _ => walkVia_dir fun _ _ _ _ hnone => by cases hnone
    | succ links ih => exact fun _ _ _ => walkVia_dir ih
  exact hlinks _ _ _ _ (node_nil fs) h

/-- Nothing lies below a file or a link. -/
theorem below_leaf {fs : Files α} {place : Place} {leaf : Leaf α}
    (h : fs.node place = some (.leaf leaf)) {below : List Name} (hne : below ≠ []) :
    fs.node (place ++ below) = none := by
  cases below with
  | nil => exact absurd rfl hne
  | cons name below =>
      have hfree : fs.node (place ++ [name]) = none := by
        by_contra hnode
        have hdir : fs.node place = some .dir := fs.parent _ _ hnode
        rw [hdir] at h
        cases h
      exact node_prefix ⟨below, by simp⟩ hfree

/-! ## What the operations do -/

theorem readFile_of_reach {fs : Files α} {path : List Name} {dir : Place} {name : Name}
    {content : α} (hreach : fs.reach path = .entry dir name)
    (hnode : fs.node (dir ++ [name]) = some (.leaf (.file content))) :
    fs.readFile path = some content := by
  rw [readFile, hreach]
  dsimp only
  rw [hnode]

theorem readFile_some {fs : Files α} {path : List Name} {content : α}
    (h : fs.readFile path = some content) : ∃ dir name, fs.reach path = .entry dir name ∧
      fs.node (dir ++ [name]) = some (.leaf (.file content)) := by
  rw [readFile] at h
  cases hreach : fs.reach path with
  | entry dir name =>
      simp only [hreach] at h
      cases hnode : fs.node (dir ++ [name]) with
      | none => simp [hnode] at h
      | some node =>
          cases node with
          | dir => simp [hnode] at h
          | leaf leaf =>
              cases leaf with
              | file found =>
                  simp only [hnode, Option.some.injEq] at h
                  exact ⟨dir, name, rfl, h ▸ hnode⟩
              | symlink text => simp [hnode] at h
              | special => simp [hnode] at h
  | dir place => simp [hreach] at h
  | nowhere => simp [hreach] at h

/-- What is written is one file at the end of the path. -/
theorem writeFile_spec {fs fs' : Files α} {path : List Name} {content : α}
    (h : fs.writeFile path content = some fs') : ∃ dir name, fs.reach path = .entry dir name ∧
      (fs.node (dir ++ [name]) = none ∨ ∃ old, fs.node (dir ++ [name]) = some (.leaf (.file old))) ∧
        ∀ place, fs'.node place =
          if place = dir ++ [name] then some (.leaf (.file content)) else fs.node place := by
  rw [writeFile] at h
  cases hreach : fs.reach path with
  | entry dir name =>
      simp only [hreach] at h
      refine ⟨dir, name, rfl, ?_⟩
      split at h
      · next hdir hentry =>
        refine ⟨.inl hentry, fun place => ?_⟩
        rw [← Option.some.inj h]
        exact insert_node fs dir name _ hdir hentry place
      · next old hentry =>
        refine ⟨.inr ⟨old, hentry⟩, fun place => ?_⟩
        rw [← Option.some.inj h]
        exact overwrite_node fs dir name old content hentry place
      · cases h
  | dir place => simp [hreach] at h
  | nowhere => simp [hreach] at h

theorem node_mem {fs : Files α} {place : Place} (hne : place ≠ []) {node : Node α}
    (h : fs.node place = some node) : ∃ e ∈ fs.entries, e.1 = place := by
  rw [Files.node, nodeOf, if_neg hne] at h
  obtain ⟨l₁, l₂, hsplit, -⟩ := List.lookup_eq_some_iff.mp h
  exact ⟨(place, node), by rw [hsplit]; simp, rfl⟩

/-- A directory lists what is in it. -/
theorem mem_readDir {fs : Files α} {path : List Name} {place : Place}
    (hwalk : fs.walk path = .at place) :
    ∃ entries, fs.readDir path = some entries ∧
      ∀ name node, (name, node) ∈ entries ↔ fs.node (place ++ [name]) = some node := by
  refine ⟨_, by rw [readDir, hwalk], fun name node => ?_⟩
  rw [List.mem_filterMap]
  constructor
  · rintro ⟨found, -, hfound⟩
    obtain ⟨node', hnode, hpair⟩ := Option.map_eq_some_iff.mp hfound
    obtain ⟨rfl, rfl⟩ := Prod.mk.inj hpair
    exact hnode
  · intro hnode
    refine ⟨name, ?_, by rw [hnode]; rfl⟩
    obtain ⟨e, he, hplace⟩ := node_mem (by simp) hnode
    rw [List.mem_insertionSort, namesIn, List.mem_dedup, List.mem_filterMap]
    refine ⟨e, he, ?_⟩
    rw [hplace, List.dropLast_concat, if_pos rfl, List.getLast?_concat]

/-- No entry is deeper than some depth. -/
theorem exists_depth (fs : Files α) :
    ∃ depth, ∀ place, fs.node place ≠ none → place.length ≤ depth := by
  have hentries : ∃ depth, ∀ e ∈ fs.entries, e.1.length ≤ depth := by
    induction fs.entries with
    | nil => exact ⟨0, fun e he => by cases he⟩
    | cons e entries ih =>
        obtain ⟨depth, hdepth⟩ := ih
        refine ⟨e.1.length + depth, List.forall_mem_cons.mpr ⟨by omega, fun e' he' => ?_⟩⟩
        have hle := hdepth e' he'
        omega
  obtain ⟨depth, hdepth⟩ := hentries
  refine ⟨depth, fun place h => ?_⟩
  by_cases hne : place = []
  · simp [hne]
  · obtain ⟨node, hnode⟩ := Option.ne_none_iff_exists'.mp h
    obtain ⟨e, he, rfl⟩ := node_mem hne hnode
    exact hdepth e he

theorem create_some {fs : Files α} {path : List Name} {dir : Place} {name : Name} (node : Node α)
    (hwalk : fs.walk path = .at dir) (hfree : fs.node (dir ++ [name]) = none) :
    ∃ fs', fs.create (path ++ [name]) node = some fs' := by
  have hdir := walk_dir hwalk
  rw [create, List.getLast?_concat, List.dropLast_concat]
  simp only [hwalk]
  split
  · exact ⟨_, rfl⟩
  · next hneither => exact absurd hfree (hneither hdir)

/-- `os.MkdirAll` creates nothing but directories on the way to its end. -/
theorem mkdirAll_prefix {fs fs' : Files α} {path : List Name} (hplain : ∀ name ∈ path, Plain name)
    (h : fs.mkdirAll path = some fs') {place : Place} (hwalk : fs'.walk path = .at place)
    {changed : Place} (hnew : fs'.node changed ≠ fs.node changed) : changed <+: place := by
  induction path using List.reverseRecOn generalizing fs' place with
  | nil =>
      obtain rfl := Option.some.inj h
      exact absurd rfl hnew
  | append_singleton path name ih =>
      obtain ⟨dir, -, rfl⟩ | ⟨middle, parent, hparents, hparent, hfree, hnodes⟩ := mkdirAll_snoc h
      · exact absurd rfl hnew
      · have hextends := extends_of_nodes hfree hnodes
        have hinto : fs'.walk (path ++ [name]) = .at (parent ++ [name]) := by
          refine walk_snoc (hplain name (by simp)) (walk_mono hextends hparent) ?_
          rw [hnodes, if_pos rfl]
        rw [hwalk, Found.at.injEq] at hinto
        subst hinto
        by_cases hchanged : changed = parent ++ [name]
        · exact hchanged ▸ List.prefix_rfl
        · rw [hnodes, if_neg hchanged] at hnew
          exact (ih (fun e he => hplain e (List.mem_append_left _ he)) hparents hparent hnew).trans
            (List.prefix_append _ _)

end GoSite.FileTrees.Files
