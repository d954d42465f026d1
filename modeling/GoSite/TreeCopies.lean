import GoSite.FileWrites

/-!
# Copies of files and directories

A directory is copied while it is walked: every entry is read from the source and written
to the same relative path of the destination, and a directory is listed when the walk
comes to it. The copy is complete and ends as long as it does not write to what it
still has to read.
-/
namespace GoSite.FileManager
open FileTrees Paths

variable {α : Type*}

inductive CopyFailure where
  | sourceNotFound
  | intoItself
  | createDir
  | walkSource
  | statSource
  | readLink
  | createLink
  | readSource
  | writeDestination
  deriving Repr, DecidableEq

def CopyFailure.message : CopyFailure → String
  | sourceNotFound => "source not found"
  | intoItself => "cannot copy directory into itself"
  | createDir => "create destination dir"
  | walkSource => "walk source"
  | statSource => "stat source"
  | readLink => "read symlink"
  | createLink => "create symlink"
  | readSource => "read source"
  | writeDestination => "write destination"

/-- How a copy ends, if it ends within its depth. -/
inductive CopyResult (α : Type*) where
  | done (fs : Files α)
  | failed (why : CopyFailure)
  | unfinished

def CopyResult.bind (result : CopyResult α) (next : Files α → CopyResult α) : CopyResult α :=
  match result with
  | .done fs => next fs
  | .failed why => .failed why
  | .unfinished => .unfinished

/-- An operation that may fail. -/
def CopyResult.orFail (why : CopyFailure) : Option (Files α) → CopyResult α
  | some fs => .done fs
  | none => .failed why

/-- The entries of a directory one after another. -/
@[grind] def copyEntries (copy : Name × Node α → Files α → CopyResult α) :
    List (Name × Node α) → Files α → CopyResult α
  | [], fs => .done fs
  | entry :: entries, fs => (copy entry fs).bind (copyEntries copy entries)

/-- The function that `copyDir` walks the source with, for an entry of the directory at
`rel`, and the walk below it. -/
def copyEntry (below : List Name → Files α → CopyResult α) (src dst rel : List Name)
    (entry : Name × Node α) (fs : Files α) : CopyResult α :=
  let path := src ++ rel ++ [entry.1]
  let target := dst ++ rel ++ [entry.1]
  match fs.lstat path with
  | .found found =>
      match entry.2 with
      | .dir => (CopyResult.orFail .createDir (fs.mkdirAll target)).bind (below (rel ++ [entry.1]))
      | .leaf (.symlink _) =>
          match found with
          | .leaf (.symlink link) =>
              .orFail .createLink (fs.create target (.leaf (.symlink link)))
          | _ => .failed .readLink
      | .leaf _ =>
          match fs.readFile path with
          | some data => .orFail .writeDestination (fs.writeFile target data)
          | none => .failed .readSource
  | _ => .failed .statSource

/-- `filepath.WalkDir` below a directory of the source, for as many levels. -/
@[grind] def walkDir (src dst : List Name) : ℕ → List Name → Files α → CopyResult α
  | 0, _, _ => .unfinished
  | depth + 1, rel, fs =>
      match fs.readDir (src ++ rel) with
      | some entries => copyEntries (copyEntry (walkDir src dst depth) src dst rel) entries fs
      | none => .failed .walkSource

/-- `copyDir`. The walk does not follow a link it begins at. -/
def copyDir (depth : ℕ) (fs : Files α) (src dst : List Name) : CopyResult α :=
  (CopyResult.orFail .createDir (fs.mkdirAll dst)).bind fun fs =>
    match fs.lstat src with
    | .found .dir => walkDir src dst depth [] fs
    | .found (.leaf _) => .done fs
    | _ => .failed .walkSource

/-- The branch of `copyPath` for what is no directory. -/
def copyFile (fs : Files α) (src dst : List Name) : CopyResult α :=
  (CopyResult.orFail .createDir (fs.mkdirAll dst.dropLast)).bind fun fs =>
    match fs.readFile src with
    | some data => .orFail .writeDestination (fs.writeFile dst data)
    | none => .failed .readSource

/-- `copyPath` of cleaned paths. -/
def copyPath (depth : ℕ) (fs : Files α) (src dst : List Name) : CopyResult α :=
  match fs.stat src with
  | none => .failed .sourceNotFound
  | some .dir =>
      if Within (rooted src) (rooted dst) then .failed .intoItself
      else copyDir depth fs src dst
  | some (.leaf _) => copyFile fs src dst

/-! ## What a copy is to do -/

/-- A file system whose entries have names that paths can have. -/
structure FileTree (α : Type*) extends Files α where
  plain : ∀ place, toFiles.node place ≠ none → ∀ name ∈ place, Plain name

/-- Where the file or the directory stands that a path names. -/
def namedPlace (fs : Files α) (path : List Name) : Option Place :=
  match fs.reach path with
  | .dir place => some place
  | .entry dir name => (fs.node (dir ++ [name])).map fun _ => dir ++ [name]
  | .nowhere => none

/-- Every file and link of the tree is at its relative path below the destination, and
the tree is what it was, outside the destination. -/
structure Copied (before after : Files α) (tree : Place) (dst : List Name) : Prop where
  files : ∀ rel content, before.node (tree ++ rel) = some (.leaf (.file content)) →
    after.readFile (dst ++ rel) = some content
  links : ∀ rel text, before.node (tree ++ rel) = some (.leaf (.symlink text)) →
    after.lstat (dst ++ rel) = .found (.leaf (.symlink text))
  source : ∀ rel, (∀ place, after.walk dst = .at place → ¬ place <+: tree ++ rel) →
    after.node (tree ++ rel) = before.node (tree ++ rel)

/-- The copy ends, and it is complete unless it fails. -/
structure CopiesTree (fs : Files α) (src dst : List Name) : Prop where
  ends : ∃ enough, ∀ depth ≥ enough, copyPath depth fs src dst ≠ .unfinished
  copied : ∀ tree, namedPlace fs src = some tree → ∀ depth after,
    copyPath depth fs src dst = .done after → Copied fs after tree dst

/-- The walk reads nothing that the copy writes: the source is no link, no place that is
written to lies in it, and nothing is written through a link. -/
structure ClearWay (fs : Files α) (src : List Name) (tree place : Place) : Prop where
  noLink : fs.lstat src = .found .dir
  apart : ∀ rel, fs.node (tree ++ rel) ≠ none → ¬ tree <+: place ++ rel
  free : ∀ rel node, fs.node (tree ++ rel) = some node →
    (∀ text, node ≠ .leaf (.symlink text)) →
      ∀ text, fs.node (place ++ rel) ≠ some (.leaf (.symlink text))

/-- A directory that is not refused has a clear way to where the destination leads once
its directories have been made. -/
def CopyClear (fs : Files α) (src dst : List Name) : Prop :=
  ∀ tree made place, fs.walk src = .at tree → ¬ Within (rooted src) (rooted dst) →
    fs.mkdirAll dst = some made → made.walk dst = .at place → ClearWay fs src tree place

/-! ## A copy on its way -/

section
variable {before : Files α} {src dst : List Name} {tree place : Place}

/-- Before the walk: both paths lead to directories, and the way is clear. -/
structure Walks (before : Files α) (src dst : List Name) (tree place : Place) : Prop where
  source : before.walk src = .at tree
  destination : before.walk dst = .at place
  plain : ∀ rel name, before.node (tree ++ rel ++ [name]) ≠ none → Plain name
  apart : ∀ rel, before.node (tree ++ rel) ≠ none → ¬ tree <+: place ++ rel
  free : ∀ rel node, before.node (tree ++ rel) = some node →
    (∀ text, node ≠ .leaf (.symlink text)) →
      ∀ text, before.node (place ++ rel) ≠ some (.leaf (.symlink text))

/-- On the way, every place is what it was or what it is a copy of. -/
structure Copying (before : Files α) (tree place : Place) (fs : Files α) : Prop where
  keeps : before.Keeps fs
  nodes : ∀ p, fs.node p = before.node p ∨ ∃ rel, p = place ++ rel ∧
    before.node (tree ++ rel) ≠ none ∧ fs.node p = before.node (tree ++ rel)

/-- The entry has been copied. -/
def Stands (before : Files α) (tree place : Place) (fs : Files α) (rel : List Name) : Prop :=
  fs.node (place ++ rel) = before.node (tree ++ rel)

/-- A later state of the copy. -/
structure Advances (before : Files α) (tree place : Place) (fs fs' : Files α) : Prop where
  copying : Copying before tree place fs'
  keeps : fs.Keeps fs'
  stands : ∀ rel, before.node (tree ++ rel) ≠ none → Stands before tree place fs rel →
    Stands before tree place fs' rel

/-- What a part of the copy comes to. -/
structure Meets (before : Files α) (tree place : Place) (fs : Files α) (goal : List Name → Prop)
    (enough : Prop) (result : CopyResult α) : Prop where
  done : ∀ fs', result = .done fs' → Advances before tree place fs fs' ∧
    ∀ rel, goal rel → before.node (tree ++ rel) ≠ none → Stands before tree place fs' rel
  ends : enough → result ≠ .unfinished

theorem Copying.refl (before : Files α) (tree place : Place) : Copying before tree place before :=
  ⟨Files.Keeps.refl before, fun _ => .inl rfl⟩

theorem Advances.refl {fs : Files α} (h : Copying before tree place fs) :
    Advances before tree place fs fs := ⟨h, Files.Keeps.refl fs, fun _ _ hstands => hstands⟩

theorem Advances.trans {fs fs' fs'' : Files α} (h : Advances before tree place fs fs')
    (h' : Advances before tree place fs' fs'') : Advances before tree place fs fs'' :=
  ⟨h'.copying, h.keeps.trans h'.keeps,
    fun rel hrel hstands => h'.stands rel hrel (h.stands rel hrel hstands)⟩

/-- The source is what it was. -/
theorem Copying.source {fs : Files α} (h : Copying before tree place fs)
    (hwalks : Walks before src dst tree place) (rel : List Name) :
    fs.node (tree ++ rel) = before.node (tree ++ rel) := by
  rcases h.nodes (tree ++ rel) with hsame | ⟨rel', hplace, hnode, -⟩
  · exact hsame
  · refine absurd ?_ (hwalks.apart rel' hnode)
    rw [← hplace]
    exact List.prefix_append _ _

/-- One entry more is copied. -/
theorem Copying.write {fs fs' : Files α} (h : Copying before tree place fs) (hkeeps : fs.Keeps fs')
    {rel : List Name} {node : Node α} (hnode : before.node (tree ++ rel) = some node)
    (hnodes : ∀ p, fs'.node p = if p = place ++ rel then some node else fs.node p) :
    Advances before tree place fs fs' ∧ Stands before tree place fs' rel := by
  have hrel : before.node (tree ++ rel) ≠ none := by
    rw [hnode]
    exact Option.some_ne_none node
  have hstands : Stands before tree place fs' rel := by
    rw [Stands, hnodes, if_pos rfl, hnode]
  refine ⟨⟨⟨h.keeps.trans hkeeps, fun p => ?_⟩, hkeeps, fun rel' _ hstands' => ?_⟩, hstands⟩
  · rw [hnodes]
    split_ifs with hp
    · exact .inr ⟨rel, hp, hrel, hnode.symm⟩
    · exact h.nodes p
  · rw [Stands, hnodes]
    split_ifs with hp
    · rw [List.append_cancel_left hp, hnode]
    · exact hstands'

/-- One part of the copy after another. -/
theorem Meets.bind {fs : Files α} {goal goal' : List Name → Prop} {enough : Prop}
    {result : CopyResult α} {next : Files α → CopyResult α}
    (h : Meets before tree place fs goal enough result)
    (hnext : ∀ fs', Advances before tree place fs fs' →
      (∀ rel, goal rel → before.node (tree ++ rel) ≠ none → Stands before tree place fs' rel) →
        Meets before tree place fs' goal' enough (next fs')) :
    Meets before tree place fs (fun rel => goal rel ∨ goal' rel) enough (result.bind next) := by
  cases result with
  | done fs' =>
      obtain ⟨hadvances, hgoal⟩ := h.done fs' rfl
      have hmeets := hnext fs' hadvances hgoal
      refine ⟨fun fs'' hdone => ?_, hmeets.ends⟩
      obtain ⟨hadvances', hgoal'⟩ := hmeets.done fs'' hdone
      refine ⟨hadvances.trans hadvances', fun rel hrel hnode => ?_⟩
      rcases hrel with hrel | hrel
      · exact hadvances'.stands rel hnode (hgoal rel hrel hnode)
      · exact hgoal' rel hrel hnode
  | failed why => exact ⟨fun _ hdone => (by cases hdone), fun _ hend => by cases hend⟩
  | unfinished =>
      exact ⟨fun _ hdone => (by cases hdone), fun henough => absurd rfl (h.ends henough)⟩

theorem Meets.mono {fs : Files α} {goal goal' : List Name → Prop} {enough enough' : Prop}
    {result : CopyResult α} (h : Meets before tree place fs goal enough result)
    (hgoal : ∀ rel, before.node (tree ++ rel) ≠ none → goal' rel → goal rel)
    (henough : enough' → enough) : Meets before tree place fs goal' enough' result := by
  refine ⟨fun fs' hdone => ?_, fun hend => h.ends (henough hend)⟩
  obtain ⟨hadvances, hstands⟩ := h.done fs' hdone
  exact ⟨hadvances, fun rel hrel hnode => hstands rel (hgoal rel hnode hrel) hnode⟩

theorem Meets.failed {fs : Files α} {goal : List Name → Prop} {enough : Prop} (why : CopyFailure) :
    Meets before tree place fs goal enough (.failed why) :=
  ⟨fun _ hdone => (by cases hdone), fun _ hend => by cases hend⟩

theorem Meets.orFail {fs : Files α} {goal : List Name → Prop} {enough : Prop} {why : CopyFailure}
    {written : Option (Files α)}
    (h : ∀ fs', written = some fs' → Advances before tree place fs fs' ∧
      ∀ rel, goal rel → before.node (tree ++ rel) ≠ none → Stands before tree place fs' rel) :
    Meets before tree place fs goal enough (.orFail why written) := by
  cases written with
  | none => exact Meets.failed why
  | some fs' =>
      refine ⟨fun fs'' hdone => ?_, fun _ hend => by cases hend⟩
      obtain rfl := CopyResult.done.inj hdone
      exact h _ rfl

/-- What stands where an entry is copied to is no link, unless the entry is one. -/
theorem Copying.not_symlink {fs : Files α} (h : Copying before tree place fs)
    (hwalks : Walks before src dst tree place) {rel : List Name} {node : Node α}
    (hnode : before.node (tree ++ rel) = some node)
    (hleaf : ∀ text, node ≠ .leaf (.symlink text)) (text : List Char) :
    fs.node (place ++ rel) ≠ some (.leaf (.symlink text)) := by
  rcases h.nodes (place ++ rel) with hsame | ⟨rel', hplace, -, hcopied⟩
  · rw [hsame]
    exact hwalks.free rel node hnode hleaf text
  · rw [hcopied, ← List.append_cancel_left hplace, hnode, ne_eq, Option.some.injEq]
    exact hleaf text

/-- A state in which the walk has come to the directory at `rel`. -/
structure AtDir (before : Files α) (src dst : List Name) (tree place : Place) (fs : Files α)
    (rel : List Name) : Prop where
  copying : Copying before tree place fs
  source : fs.walk (src ++ rel) = .at (tree ++ rel)
  destination : fs.walk (dst ++ rel) = .at (place ++ rel)

theorem AtDir.advance {fs fs' : Files α} {rel : List Name}
    (h : AtDir before src dst tree place fs rel) (hadvances : Advances before tree place fs fs') :
    AtDir before src dst tree place fs' rel :=
  ⟨hadvances.copying, Files.walk_keeps hadvances.keeps h.source,
    Files.walk_keeps hadvances.keeps h.destination⟩

/-- The walk comes to a directory in the directory. -/
theorem AtDir.enter {fs : Files α} {rel : List Name} {name : Name}
    (h : AtDir before src dst tree place fs rel) (hwalks : Walks before src dst tree place)
    (hdir : before.node (tree ++ (rel ++ [name])) = some .dir)
    (hstands : Stands before tree place fs (rel ++ [name])) :
    AtDir before src dst tree place fs (rel ++ [name]) := by
  have hplain : Plain name := by
    refine hwalks.plain rel name ?_
    rw [List.append_assoc, hdir]
    exact Option.some_ne_none _
  refine ⟨h.copying, ?_, ?_⟩
  · have hsource := h.copying.source hwalks (rel ++ [name])
    rw [hdir, ← List.append_assoc] at hsource
    rw [← List.append_assoc, ← List.append_assoc]
    exact Files.walk_snoc hplain h.source hsource
  · rw [Stands, hdir, ← List.append_assoc] at hstands
    rw [← List.append_assoc, ← List.append_assoc]
    exact Files.walk_snoc hplain h.destination hstands

/-- What the copy of an entry comes to, when the walk below it does its part. -/
theorem copyEntry_meets {fs : Files α} {rel : List Name} {name : Name} {node : Node α}
    {below : List Name → Files α → CopyResult α} {enough : Prop}
    (hwalks : Walks before src dst tree place) (h : AtDir before src dst tree place fs rel)
    (hnode : before.node (tree ++ (rel ++ [name])) = some node)
    (hbelow : node = .dir → ∀ fs', AtDir before src dst tree place fs' (rel ++ [name]) →
      Meets before tree place fs' (fun t => rel ++ [name] <+: t ∧ t ≠ rel ++ [name]) enough
        (below (rel ++ [name]) fs')) :
    Meets before tree place fs (fun t => rel ++ [name] <+: t) enough
      (copyEntry below src dst rel (name, node) fs) := by
  have hsource := h.copying.source hwalks (rel ++ [name])
  rw [hnode, ← List.append_assoc] at hsource
  have hplain : Plain name := by
    refine hwalks.plain rel name ?_
    rw [List.append_assoc, hnode]
    exact Option.some_ne_none _
  have hlstat : fs.lstat (src ++ rel ++ [name]) = .found node := by
    rw [Files.lstat_snoc h.source, hsource]
  have hreach : node ≠ .dir → (∀ text, node ≠ .leaf (.symlink text)) →
      fs.reach (src ++ rel ++ [name]) = .entry (tree ++ rel) name := by
    intro hdir hlink
    refine Files.reach_snoc hplain h.source ?_ fun text => ?_
    · rw [hsource, ne_eq, Option.some.injEq]
      exact hdir
    · rw [hsource, ne_eq, Option.some.injEq]
      exact hlink text
  rw [copyEntry]
  simp only [hlstat]
  cases node with
  | dir =>
      have hmade : Meets before tree place fs (fun t => t = rel ++ [name]) enough
          (.orFail .createDir (fs.mkdirAll (dst ++ rel ++ [name]))) := by
        refine Meets.orFail fun fs' hfs' => ?_
        obtain ⟨dir, hwalk, rfl⟩ | ⟨middle, parent, hparents, hparent, hfree, hnodes⟩ :=
          Files.mkdirAll_snoc hfs'
        · refine ⟨Advances.refl h.copying, ?_⟩
          rintro t rfl -
          obtain ⟨parent, hparent, ⟨hdir, -⟩ | ⟨text, hlink⟩⟩ := Files.walk_of_snoc hplain hwalk
          · rw [h.destination, Files.Found.at.injEq] at hparent
            rw [Stands, hnode, ← hdir, ← hparent, List.append_assoc]
          · rw [h.destination, Files.Found.at.injEq] at hparent
            rw [← hparent, List.append_assoc] at hlink
            exact absurd hlink (h.copying.not_symlink hwalks hnode (fun _ => by simp) text)
        · rw [Files.mkdirAll_of_walk h.destination, Option.some.injEq] at hparents
          subst hparents
          rw [h.destination, Files.Found.at.injEq] at hparent
          subst hparent
          have hextends := Files.extends_of_nodes hfree hnodes
          rw [List.append_assoc] at hnodes
          obtain ⟨hadvances, hstands⟩ := h.copying.write hextends.keeps hnode hnodes
          refine ⟨hadvances, ?_⟩
          rintro t rfl -
          exact hstands
      have hboth : Meets before tree place fs
          (fun t => t = rel ++ [name] ∨ (rel ++ [name] <+: t ∧ t ≠ rel ++ [name])) enough
          ((CopyResult.orFail .createDir (fs.mkdirAll (dst ++ rel ++ [name]))).bind
            (below (rel ++ [name]))) := by
        refine hmade.bind fun fs' hadvances hgoal => ?_
        refine hbelow rfl fs' ((h.advance hadvances).enter hwalks hnode ?_)
        exact hgoal _ rfl (by rw [hnode]; exact Option.some_ne_none _)
      refine hboth.mono (fun t _ ht => ?_) id
      by_cases heq : t = rel ++ [name]
      · exact .inl heq
      · exact .inr ⟨ht, heq⟩
  | leaf leaf =>
      have hwritten : ∀ fs', (∀ p, fs'.node p =
          if p = place ++ rel ++ [name] then some (.leaf leaf) else fs.node p) → fs.Keeps fs' →
          Advances before tree place fs fs' ∧ ∀ t, rel ++ [name] <+: t →
            before.node (tree ++ t) ≠ none → Stands before tree place fs' t := by
        intro fs' hnodes hkeeps
        rw [List.append_assoc] at hnodes
        obtain ⟨hadvances, hstands⟩ := h.copying.write hkeeps hnode hnodes
        refine ⟨hadvances, ?_⟩
        rintro t ⟨more, rfl⟩ hmore
        by_cases hself : more = []
        · rwa [hself, List.append_nil]
        · rw [← List.append_assoc, Files.below_leaf hnode hself] at hmore
          exact absurd rfl hmore
      cases leaf with
      | symlink text =>
          refine Meets.orFail fun fs' hfs' => ?_
          obtain ⟨dir, hdir, hfree, hnodes⟩ := Files.create_spec hfs'
          rw [h.destination, Files.Found.at.injEq] at hdir
          subst hdir
          exact hwritten fs' hnodes (Files.extends_of_nodes hfree hnodes).keeps
      | file content =>
          have hread : fs.readFile (src ++ rel ++ [name]) = some content :=
            Files.readFile_of_reach (hreach (by simp) (by simp)) hsource
          simp only [hread]
          refine Meets.orFail fun fs' hfs' => ?_
          obtain ⟨dir, found, hend, hfree, hnodes⟩ := Files.writeFile_spec hfs'
          have hlink := h.copying.not_symlink hwalks hnode (fun _ => by simp)
          rw [← List.append_assoc] at hlink
          by_cases hdir : fs.node (place ++ rel ++ [name]) = some .dir
          · have hwalk := Files.walk_snoc hplain h.destination hdir
            rw [← Files.reach_dir_iff, hend] at hwalk
            cases hwalk
          · rw [Files.reach_snoc hplain h.destination hdir hlink] at hend
            obtain ⟨rfl, rfl⟩ := Files.Reached.entry.inj hend
            exact hwritten fs' hnodes (Files.keeps_of_file hfree hnodes)
      | special =>
          cases hread : fs.readFile (src ++ rel ++ [name]) with
          | none => exact Meets.failed _
          | some data =>
              obtain ⟨dir, found, hend, hfound⟩ := Files.readFile_some hread
              rw [hreach (by simp) (by simp)] at hend
              obtain ⟨rfl, rfl⟩ := Files.Reached.entry.inj hend
              rw [hsource] at hfound
              cases hfound

theorem copyEntries_meets {rel : List Name} {copy : Name × Node α → Files α → CopyResult α}
    {goal : Name × Node α → List Name → Prop} {enough : Prop} {entries : List (Name × Node α)}
    (hcopy : ∀ entry ∈ entries, ∀ fs, AtDir before src dst tree place fs rel →
      Meets before tree place fs (goal entry) enough (copy entry fs)) {fs : Files α}
    (h : AtDir before src dst tree place fs rel) :
    Meets before tree place fs (fun t => ∃ entry ∈ entries, goal entry t) enough
      (copyEntries copy entries fs) := by
  induction entries generalizing fs with
  | nil =>
      refine ⟨fun fs' hdone => ?_, fun _ hend => by cases hend⟩
      obtain rfl := CopyResult.done.inj hdone
      refine ⟨Advances.refl h.copying, ?_⟩
      rintro t ⟨entry, hentry, -⟩
      cases hentry
  | cons entry entries ih =>
      obtain ⟨hfirst, hrest⟩ := List.forall_mem_cons.mp hcopy
      have hboth := (hfirst fs h).bind fun fs' hadvances _ => ih hrest (h.advance hadvances)
      refine hboth.mono (fun t _ ht => ?_) id
      rwa [List.exists_mem_cons_iff] at ht

/-- The walk below a directory copies everything below it, and it ends within the depth
of the tree. -/
theorem walkDir_meets (hwalks : Walks before src dst tree place) {depth : ℕ} {rel : List Name}
    {fs : Files α} (hdir : before.node (tree ++ rel) = some .dir)
    (h : AtDir before src dst tree place fs rel) :
    Meets before tree place fs (fun t => rel <+: t ∧ t ≠ rel)
      (∀ more, before.node (tree ++ (rel ++ more)) ≠ none → more.length < depth)
      (walkDir src dst depth rel fs) := by
  induction depth generalizing rel fs with
  | zero =>
      refine ⟨fun _ hdone => (by cases hdone), fun henough => ?_⟩
      refine absurd (henough [] ?_) (Nat.not_lt_zero _)
      rw [List.append_nil, hdir]
      exact Option.some_ne_none _
  | succ depth ih =>
      obtain ⟨entries, hentries, hmem⟩ := Files.mem_readDir h.source
      have hlisted : ∀ name node, (name, node) ∈ entries ↔
          before.node (tree ++ (rel ++ [name])) = some node := by
        intro name node
        rw [hmem, List.append_assoc, h.copying.source hwalks]
      rw [walkDir]
      simp only [hentries]
      have hentry : ∀ entry ∈ entries, ∀ fs, AtDir before src dst tree place fs rel →
          Meets before tree place fs (fun t => rel ++ [entry.1] <+: t)
            (∀ more, before.node (tree ++ (rel ++ more)) ≠ none → more.length < depth + 1)
            (copyEntry (walkDir src dst depth) src dst rel entry fs) := by
        intro entry hentry fs hfs
        have hnode := (hlisted _ _).mp hentry
        refine copyEntry_meets hwalks hfs hnode fun hbelow fs' hfs' => ?_
        rw [hbelow] at hnode
        refine (ih hnode hfs').mono (fun _ _ ht => ht) fun henough more hmore => ?_
        have hlength := henough ([entry.1] ++ more) (by rwa [← List.append_assoc rel])
        rw [List.length_append, List.length_singleton] at hlength
        omega
      have hcopies := copyEntries_meets hentry h
      refine hcopies.mono ?_ id
      rintro t hnode ⟨⟨more, rfl⟩, hne⟩
      cases more with
      | nil => exact absurd (List.append_nil rel) hne
      | cons name more =>
          have hpre : rel ++ [name] <+: rel ++ name :: more := ⟨more, by simp⟩
          cases hfirst : before.node (tree ++ (rel ++ [name])) with
          | none =>
              refine absurd (Files.node_prefix ?_ hfirst) hnode
              exact (List.prefix_append_right_inj tree).mpr hpre
          | some node => exact ⟨(name, node), (hlisted _ _).mpr hfirst, hpre⟩

end

/-! ## Whole copies -/

/-- Making the destination leaves the source as it is. -/
theorem walks_of_clear {fs : FileTree α} {src dst : List Name} (hdst : ∀ e ∈ dst, Plain e)
    {tree place : Place} {made : Files α} (hsource : fs.walk src = .at tree)
    (hmade : fs.mkdirAll dst = some made) (hplace : made.walk dst = .at place)
    (hclear : ClearWay fs.toFiles src tree place) :
    Walks made src dst tree place ∧
      ∀ rel, made.node (tree ++ rel) = fs.node (tree ++ rel) := by
  have hextends := (Files.mkdirAll_spec hdst hmade).1
  have hroot : fs.node (tree ++ []) ≠ none := by
    rw [List.append_nil, Files.walk_dir hsource]
    exact Option.some_ne_none _
  have hsame : ∀ rel, made.node (tree ++ rel) = fs.node (tree ++ rel) := by
    intro rel
    by_contra hne
    have hpre := Files.mkdirAll_prefix hdst hmade hplace hne
    refine hclear.apart [] hroot ?_
    rw [List.append_nil]
    exact (List.prefix_append _ _).trans hpre
  refine ⟨⟨Files.walk_mono hextends hsource, hplace, fun rel name hnode => ?_, fun rel hrel => ?_,
    fun rel node hnode hleaf text hlink => ?_⟩, hsame⟩
  · rw [List.append_assoc, hsame, ← List.append_assoc] at hnode
    exact fs.plain _ hnode name (by simp)
  · rw [hsame] at hrel
    exact hclear.apart rel hrel
  · rw [hsame] at hnode
    by_cases hnew : made.node (place ++ rel) = fs.node (place ++ rel)
    · rw [hnew] at hlink
      exact hclear.free rel node hnode hleaf text hlink
    · rw [Files.mkdirAll_new hmade _ hnew] at hlink
      cases hlink

/-- Once everything stands in its place, it is found below the destination. -/
theorem copied_of_stands {before after : Files α} {src dst : List Name} {tree place : Place}
    (hwalks : Walks before src dst tree place) (hcopying : Copying before tree place after)
    (hstands : ∀ rel, rel ≠ [] → before.node (tree ++ rel) ≠ none →
      Stands before tree place after rel) : Copied before after tree dst := by
  have hdirs : ∀ rel, before.node (tree ++ rel) = some .dir →
      after.walk (dst ++ rel) = .at (place ++ rel) := by
    intro rel
    induction rel using List.reverseRecOn with
    | nil =>
        intro _
        rw [List.append_nil, List.append_nil]
        exact Files.walk_keeps hcopying.keeps hwalks.destination
    | append_singleton rel name ih =>
        intro hdir
        have hsome : before.node (tree ++ rel ++ [name]) ≠ none := by
          rw [List.append_assoc, hdir]
          exact Option.some_ne_none _
        have hparent := ih (before.parent _ _ hsome)
        have hcopy := hstands (rel ++ [name]) (by simp) (by rw [hdir]; exact Option.some_ne_none _)
        rw [Stands, hdir] at hcopy
        rw [← List.append_assoc] at hcopy ⊢
        rw [← List.append_assoc]
        exact Files.walk_snoc (hwalks.plain rel name hsome) hparent hcopy
  have hleaf : ∀ rel leaf, before.node (tree ++ rel) = some (.leaf leaf) →
      ∃ dir name, rel = dir ++ [name] ∧ Plain name ∧
        after.walk (dst ++ dir) = .at (place ++ dir) ∧
          after.node (place ++ dir ++ [name]) = some (.leaf leaf) := by
    intro rel leaf hnode
    obtain rfl | ⟨dir, name, rfl⟩ := List.eq_nil_or_concat rel
    · rw [List.append_nil, Files.walk_dir hwalks.source] at hnode
      cases hnode
    · rw [List.concat_eq_append] at hnode ⊢
      have hsome : before.node (tree ++ (dir ++ [name])) ≠ none := by
        rw [hnode]
        exact Option.some_ne_none _
      have hcopy := hstands (dir ++ [name]) (by simp) hsome
      rw [Stands, hnode, ← List.append_assoc] at hcopy
      rw [← List.append_assoc] at hsome
      have hparent := hdirs dir (before.parent _ _ hsome)
      exact ⟨dir, name, rfl, hwalks.plain dir name hsome, hparent, hcopy⟩
  refine ⟨fun rel content hnode => ?_, fun rel text hnode => ?_, fun rel _ => ?_⟩
  · obtain ⟨dir, name, rfl, hplain, hwalk, hfound⟩ := hleaf rel _ hnode
    rw [← List.append_assoc]
    refine Files.readFile_of_reach (Files.reach_snoc hplain hwalk ?_ fun text => ?_) hfound
    · rw [hfound]
      simp
    · rw [hfound]
      simp
  · obtain ⟨dir, name, rfl, hplain, hwalk, hfound⟩ := hleaf rel _ hnode
    rw [← List.append_assoc, Files.lstat_snoc hwalk, hfound]
  · exact hcopying.source hwalks rel

/-- A directory with a clear way is copied. -/
theorem copyDir_copies {fs : FileTree α} {src dst : List Name} (hdst : ∀ e ∈ dst, Plain e)
    {tree : Place} (hsource : fs.walk src = .at tree)
    (hclear : ∀ made place, fs.mkdirAll dst = some made → made.walk dst = .at place →
      ClearWay fs.toFiles src tree place) :
    (∃ enough, ∀ depth ≥ enough, copyDir depth fs.toFiles src dst ≠ .unfinished) ∧
      ∀ depth after, copyDir depth fs.toFiles src dst = .done after →
        Copied fs.toFiles after tree dst := by
  simp only [copyDir]
  cases hmade : fs.mkdirAll dst with
  | none => exact ⟨⟨0, fun _ _ hend => by cases hend⟩, fun _ _ hdone => by cases hdone⟩
  | some made =>
      obtain ⟨hextends, place, hplace⟩ := Files.mkdirAll_spec hdst hmade
      have hway := hclear made place hmade hplace
      obtain ⟨hwalks, hsame⟩ := walks_of_clear hdst hsource hmade hplace hway
      have hlstat : made.lstat src = .found .dir := by
        obtain rfl | ⟨path, name, rfl⟩ := List.eq_nil_or_concat src
        · rfl
        · have hfound := hway.noLink
          rw [List.concat_eq_append] at hfound ⊢
          exact Files.lstat_mono hextends hfound
      have hroot : made.node (tree ++ []) = some .dir := by
        rw [List.append_nil]
        exact Files.walk_dir hwalks.source
      have hstart : AtDir made src dst tree place made [] := by
        refine ⟨Copying.refl made tree place, ?_, ?_⟩
        · rw [List.append_nil, List.append_nil]
          exact hwalks.source
        · rw [List.append_nil, List.append_nil]
          exact hwalks.destination
      simp only [CopyResult.orFail, CopyResult.bind, hlstat]
      constructor
      · obtain ⟨depth, hdepth⟩ := made.exists_depth
        refine ⟨depth + 1, fun levels hlevels => ?_⟩
        refine (walkDir_meets hwalks hroot hstart).ends fun more hmore => ?_
        have hlength := hdepth _ hmore
        rw [List.nil_append, List.length_append] at hlength
        omega
      · intro depth after hdone
        obtain ⟨hadvances, hstands⟩ := (walkDir_meets hwalks hroot hstart).done after hdone
        have hcopied := copied_of_stands hwalks hadvances.copying fun rel hne =>
          hstands rel ⟨List.nil_prefix, hne⟩
        refine ⟨fun rel content hnode => ?_, fun rel text hnode => ?_, fun rel hout => ?_⟩
        · exact hcopied.files rel content (by rwa [hsame])
        · exact hcopied.links rel text (by rwa [hsame])
        · rw [hcopied.source rel hout, hsame]

theorem orFail_ends {why : CopyFailure} {written : Option (Files α)} :
    CopyResult.orFail why written ≠ .unfinished := by
  cases written with
  | none => exact fun hend => by cases hend
  | some fs => exact fun hend => by cases hend

theorem orFail_done {why : CopyFailure} {written : Option (Files α)} {fs : Files α}
    (h : CopyResult.orFail why written = .done fs) : written = some fs := by
  cases written with
  | none => cases h
  | some fs' => rw [CopyResult.done.inj h]

theorem copyFile_ends {fs : Files α} {src dst : List Name} :
    copyFile fs src dst ≠ .unfinished := by
  rw [copyFile]
  cases fs.mkdirAll dst.dropLast with
  | none => exact fun hend => by cases hend
  | some made =>
      simp only [CopyResult.orFail, CopyResult.bind]
      cases made.readFile src with
      | none => exact fun hend => by cases hend
      | some data => exact orFail_ends

theorem copyFile_done {fs after : Files α} {src dst : List Name}
    (h : copyFile fs src dst = .done after) : ∃ made data,
      fs.mkdirAll dst.dropLast = some made ∧ made.readFile src = some data ∧
        made.writeFile dst data = some after := by
  rw [copyFile] at h
  cases hmade : fs.mkdirAll dst.dropLast with
  | none =>
      rw [hmade] at h
      cases h
  | some made =>
      rw [hmade] at h
      simp only [CopyResult.orFail, CopyResult.bind] at h
      cases hread : made.readFile src with
      | none =>
          rw [hread] at h
          cases h
      | some data =>
          rw [hread] at h
          exact ⟨made, data, rfl, hread, orFail_done h⟩

/-- A file is copied wherever it is copied to. -/
theorem copyFile_copied {fs made after : Files α} {src dst : List Name} {dir : Place} {name : Name}
    {leaf : Leaf α} {data : α} (hreach : fs.reach src = .entry dir name)
    (hleaf : fs.node (dir ++ [name]) = some (.leaf leaf)) (hextends : fs.Extends made)
    (hread : made.readFile src = some data) (hwrite : made.writeFile dst data = some after) :
    Copied fs after (dir ++ [name]) dst := by
  have hsome : fs.node (dir ++ [name]) ≠ none := by
    rw [hleaf]
    exact Option.some_ne_none _
  have hend := Files.reach_keeps hextends.keeps (.inl hsome) hreach
  obtain ⟨dir', name', hreach', hdata⟩ := Files.readFile_some hread
  rw [hend] at hreach'
  obtain ⟨rfl, rfl⟩ := Files.Reached.entry.inj hreach'
  have hsame := hextends _ _ hleaf
  rw [hdata, Option.some.injEq, Node.leaf.injEq] at hsame
  subst hsame
  obtain ⟨target, entry, hopened, hfree, hnodes⟩ := Files.writeFile_spec hwrite
  have hwritten : after.node (target ++ [entry]) = some (.leaf (.file data)) := by
    rw [hnodes, if_pos rfl]
  have hreached := Files.reach_keeps (Files.keeps_of_file hfree hnodes) (.inr ⟨data, hwritten⟩)
    hopened
  have hself : after.node (dir ++ [name]) = some (.leaf (.file data)) := by
    rw [hnodes, hdata, ite_self]
  have honly : ∀ rel node, fs.node (dir ++ [name] ++ rel) = some node → rel = [] := by
    intro rel node hnode
    by_contra hne
    rw [Files.below_leaf hleaf hne] at hnode
    cases hnode
  refine ⟨fun rel content hnode => ?_, fun rel text hnode => ?_, fun rel _ => ?_⟩
  · obtain rfl := honly rel _ hnode
    rw [List.append_nil, hleaf, Option.some.injEq, Node.leaf.injEq, Leaf.file.injEq] at hnode
    subst hnode
    rw [List.append_nil]
    exact Files.readFile_of_reach hreached hwritten
  · obtain rfl := honly rel _ hnode
    rw [List.append_nil, hleaf] at hnode
    cases hnode
  · by_cases hrel : rel = []
    · rw [hrel, List.append_nil, hself, hleaf]
    · rw [Files.below_leaf hself hrel, Files.below_leaf hleaf hrel]

/-- A link to a directory is taken for the directory, but the walk does not follow it:
nothing is copied, and no failure is reported. -/
theorem linked_directory_not_copied {fs made : Files α} {src dst : List Name} {text : List Char}
    {tree : Place} {rel : List Name} {content : α}
    (hlink : fs.lstat src = .found (.leaf (.symlink text))) (hsource : fs.walk src = .at tree)
    (hfile : fs.node (tree ++ rel) = some (.leaf (.file content)))
    (hdst : ∀ e ∈ dst, Plain e) (hmade : fs.mkdirAll dst = some made)
    (hwithin : ¬ Within (rooted src) (rooted dst))
    (hmissing : made.readFile (dst ++ rel) ≠ some content) : ¬ CopiesTree fs src dst := by
  intro hcopies
  have hreach := Files.reach_dir_iff.mpr hsource
  have hfound : made.lstat src = .found (.leaf (.symlink text)) := by
    obtain rfl | ⟨path, name, rfl⟩ := List.eq_nil_or_concat src
    · cases hlink
    · rw [List.concat_eq_append] at hlink ⊢
      exact Files.lstat_mono (Files.mkdirAll_spec hdst hmade).1 hlink
  have hdone : copyPath 0 fs src dst = .done made := by
    simp only [copyPath, Files.stat, hreach, if_neg hwithin, copyDir, hmade, CopyResult.orFail,
      CopyResult.bind, hfound]
  have htree : namedPlace fs src = some tree := by rw [namedPlace, hreach]
  exact hmissing ((hcopies.copied tree htree 0 made hdone).files rel content hfile)

/-- Nothing but directories with one name, so many levels deep. -/
def Chain (fs : Files α) (name : Name) (levels : ℕ) : Prop :=
  ∀ place, fs.node place =
    if ∃ k ≤ levels, place = List.replicate k name then some .dir else none

theorem Chain.walkVia {fs : Files α} {name : Name} {levels : ℕ} (h : Chain fs name levels)
    (hname : Plain name) (follow : Place → List Name → Files.Found) (i j : ℕ) :
    fs.walkVia follow (List.replicate i name) (List.replicate j name) =
      if j = 0 ∨ i + j ≤ levels then .at (List.replicate (i + j) name) else .missing := by
  induction j generalizing i with
  | zero => rfl
  | succ j ih =>
      have hstep : List.replicate i name ++ [name] = List.replicate (i + 1) name :=
        List.replicate_append_replicate (n := i) (m := 1)
      rw [List.replicate_succ, Files.walkVia, if_neg (not_or.mpr ⟨hname.1, hname.2.1⟩),
        if_neg hname.2.2.1, hstep, h]
      by_cases hle : i + 1 ≤ levels
      · rw [if_pos ⟨i + 1, hle, rfl⟩]
        dsimp only
        rw [ih, show i + 1 + j = i + (j + 1) by omega]
        by_cases hfull : i + (j + 1) ≤ levels
        · rw [if_pos (.inr hfull), if_pos (.inr hfull)]
        · rw [if_neg (by omega), if_neg (by omega)]
      · rw [if_neg]
        · rw [if_neg (by omega)]
        · rintro ⟨k, hk, heq⟩
          have hlength := congrArg List.length heq
          rw [List.length_replicate, List.length_replicate] at hlength
          omega

theorem Chain.walk {fs : Files α} {name : Name} {levels : ℕ} (h : Chain fs name levels)
    (hname : Plain name) (j : ℕ) : fs.walk (List.replicate j name) =
      if j = 0 ∨ j ≤ levels then .at (List.replicate j name) else .missing := by
  have hvia := h.walkVia hname (Files.walkFrom fs 39) 0 j
  rwa [Nat.zero_add] at hvia

theorem Chain.free {fs : Files α} {name : Name} {levels : ℕ} (h : Chain fs name levels) :
    fs.node (List.replicate levels name ++ [name]) = none := by
  rw [h, if_neg]
  rintro ⟨k, hk, heq⟩
  have hlength := congrArg List.length heq
  rw [List.length_append, List.length_replicate, List.length_replicate] at hlength
  simp at hlength
  omega

/-- One level more is made. -/
theorem Chain.mkdirAll {fs : Files α} {name : Name} {levels : ℕ} (h : Chain fs name levels)
    (hname : Plain name) : ∃ fs', fs.mkdirAll (List.replicate (levels + 1) name) = some fs' ∧
      Chain fs' name (levels + 1) := by
  have hwalk := h.walk hname levels
  rw [if_pos (.inr le_rfl)] at hwalk
  have hmissing := h.walk hname (levels + 1)
  rw [if_neg (by omega)] at hmissing
  have hsnoc : List.replicate (levels + 1) name = List.replicate levels name ++ [name] :=
    List.replicate_succ'
  obtain ⟨fs', hcreate⟩ := Files.create_some .dir hwalk h.free
  refine ⟨fs', ?_, ?_⟩
  · have hparents := Files.mkdirAll_of_walk hwalk
    rw [Files.mkdirAll] at hparents ⊢
    rw [hsnoc] at hmissing
    rw [hsnoc, List.reverse_append, List.reverse_singleton, List.singleton_append,
      Files.mkdirAllRev, List.reverse_cons, List.reverse_reverse, hmissing]
    dsimp only
    rw [hparents, Option.bind_some]
    exact hcreate
  · obtain ⟨dir, hdir, -, hnodes⟩ := Files.create_spec hcreate
    rw [hwalk, Files.Found.at.injEq] at hdir
    subst hdir
    intro place
    rw [hnodes, ← hsnoc, h]
    by_cases hnew : place = List.replicate (levels + 1) name
    · rw [if_pos hnew, if_pos ⟨levels + 1, le_rfl, hnew⟩]
    · rw [if_neg hnew]
      congr 1
      refine propext ⟨?_, ?_⟩
      · rintro ⟨k, hk, heq⟩
        exact ⟨k, by omega, heq⟩
      · rintro ⟨k, hk, heq⟩
        refine ⟨k, ?_, heq⟩
        by_contra hlt
        obtain rfl : k = levels + 1 := by omega
        exact hnew heq

/-- The walk over a copy of itself never comes to an end. -/
theorem Chain.walkDir_unfinished {fs : Files α} {name : Name} {levels : ℕ}
    (h : Chain fs name (levels + 1)) (hname : Plain name) (depth : ℕ) :
    walkDir [] [name] depth (List.replicate levels name) fs = .unfinished := by
  induction depth generalizing fs levels with
  | zero => rfl
  | succ depth ih =>
      have hsnoc : List.replicate (levels + 1) name = List.replicate levels name ++ [name] :=
        List.replicate_succ'
      have hwalk := h.walk hname levels
      rw [if_pos (.inr (Nat.le_succ levels))] at hwalk
      have hdir : fs.node (List.replicate levels name ++ [name]) = some .dir := by
        rw [← hsnoc, h, if_pos ⟨levels + 1, le_rfl, rfl⟩]
      obtain ⟨entries, hentries, hmem⟩ := Files.mem_readDir hwalk
      have honly : ∀ entry ∈ entries, entry = (name, .dir) := by
        rintro ⟨found, node⟩ hentry
        have hnode := (hmem _ _).mp hentry
        rw [h] at hnode
        split_ifs at hnode with hchain
        obtain ⟨k, -, heq⟩ := hchain
        have hfound : found ∈ List.replicate k name := by
          rw [← heq]
          simp
        rw [List.eq_of_mem_replicate hfound, ← Option.some.inj hnode]
      rw [walkDir, List.nil_append]
      simp only [hentries]
      cases entries with
      | nil => cases (hmem name .dir).mpr hdir
      | cons entry entries =>
          obtain rfl := honly entry (by simp)
          obtain ⟨fs', hmade, hchain⟩ := h.mkdirAll hname
          have htarget : [name] ++ List.replicate levels name ++ [name] =
              List.replicate (levels + 1 + 1) name := by
            rw [List.append_assoc, ← hsnoc]
            rfl
          rw [copyEntries, copyEntry]
          simp only [List.nil_append, Files.lstat_snoc hwalk, hdir, htarget, hmade,
            CopyResult.orFail, CopyResult.bind]
          rw [← hsnoc, ih hchain]

/-- A directory `s` with a file and a link in it. -/
def smallEntries : List (Place × Node ℕ) :=
  [(["s".toList], .dir), (["s".toList, "f".toList], .leaf (.file 7)),
    (["s".toList, "l".toList], .leaf (.symlink "f".toList))]

def smallTree : FileTree ℕ where
  toFiles := .ofEntries smallEntries (by decide)
  plain := by
    intro place hnode name hname
    by_cases hne : place = []
    · rw [hne] at hname
      cases hname
    · obtain ⟨node, hsome⟩ := Option.ne_none_iff_exists'.mp hnode
      obtain ⟨e, he, rfl⟩ := Files.node_mem hne hsome
      have hplain : ∀ e ∈ smallEntries, ∀ name ∈ e.1, Plain name := by decide
      exact hplain e he name hname

end GoSite.FileManager
