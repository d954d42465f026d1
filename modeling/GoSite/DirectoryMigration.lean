import GoSite.FileTrees

/-!
# Migration of a directory that becomes a link

At startup a directory that should be a symbolic link is merged into the target of
the link, and then replaced by it. What conflicts with an entry of the target is
kept under a new name in a directory beside the target.
-/
namespace GoSite.Bootstrap

open FileTrees Paths
open GoSite.Terminal (cleanElement)

variable {α β : Type*}

/-- The listing of a directory, each directory in it with its own. -/
inductive Entries (α : Type*) where
  | nil
  | leaf (name : Name) (leaf : Leaf α) (rest : Entries α)
  | dir (name : Name) (children rest : Entries α)
  deriving Repr, DecidableEq

@[grind] def Entries.names : Entries α → List Name
  | nil => []
  | leaf name _ rest => name :: rest.names
  | dir name _ rest => name :: rest.names

/-- Names of entries are names, and they are different. -/
@[grind] def Entries.WellFormed : Entries α → Prop
  | nil => True
  | leaf name _ rest => Plain name ∧ name ∉ rest.names ∧ rest.WellFormed
  | dir name children rest =>
      Plain name ∧ name ∉ rest.names ∧ children.WellFormed ∧ rest.WellFormed

/-- The directory that is migrated. Nothing else leads into it. -/
structure SourceDir (α : Type*) where
  entries : Entries α
  wellFormed : entries.WellFormed

/-- What is compared of two files. -/
structure Digest (α β : Type*) where
  size : α → ℕ
  fileChecksum : α → β

def migratedEntriesEqual [DecidableEq β] (digest : Digest α β) : Node α → Node α → Bool
  | .leaf (.symlink s), .leaf (.symlink t) => s = t
  | .leaf (.file a), .leaf (.file b) =>
      digest.size a = digest.size b ∧ digest.fileChecksum a = digest.fileChecksum b
  | _, _ => false

/-- `mergeDirContents` of a source directory, for a destination. -/
abbrev Merge (α : Type*) := List Name → Files α → Option (Files α)

def copyMigratedEntry (src : Node α) (merge : Merge α) (dst : List Name) (fs : Files α) :
    Option (Files α) :=
  match src with
  | .leaf .special => some fs
  | .leaf leaf => (fs.mkdirAll dst.dropLast).bind fun fs => fs.create dst (.leaf leaf)
  | .dir => ((fs.mkdirAll dst.dropLast).bind fun fs => fs.create dst .dir).bind (merge dst)

/-- `filepath.Rel` of cleaned paths. -/
def relative : List Name → List Name → List Name
  | b :: base, t :: target =>
      if b = t then relative base target else (b :: base).map (fun _ => ['.', '.']) ++ t :: target
  | base, target => base.map (fun _ => ['.', '.']) ++ target

/-- `filepath.Join`. -/
def joinElements (dir path : List Name) : List Name :=
  (path.foldl (cleanElement true) dir.reverse).reverse

/-- A path with something written behind it. -/
def withSuffix (path : List Name) (suffix : List Char) : List Name :=
  path.dropLast ++ [path.getLastD [] ++ suffix]

def candidate (base : List Name) (attempt : ℕ) : List Name :=
  if attempt = 0 then base else withSuffix base ('.' :: Nat.toDigits 10 attempt)

/-- The loop goes on to the next name. -/
def taken [DecidableEq β] (digest : Digest α β) (src : Node α) : Files.Lstat α → Bool
  | .found node => ¬ migratedEntriesEqual digest src node
  | _ => false

/-- There are no more taken names than entries, so that the loop ends. -/
def preserveMigrationConflict [DecidableEq β] (digest : Digest α β) (src : Node α)
    (merge : Merge α) (dst dstRoot conflictRoot : List Name) (fs : Files α) : Option (Files α) :=
  let base := withSuffix (joinElements conflictRoot (relative dstRoot dst)) ".migrated".toList
  match (List.range (fs.entries.length + 1)).find? fun attempt =>
      ¬ taken digest src (fs.lstat (candidate base attempt)) with
  | none => none
  | some attempt =>
      match fs.lstat (candidate base attempt) with
      | .notExist => copyMigratedEntry src merge (candidate base attempt) fs
      | .failed => none
      | .found _ => some fs

def migrateEntry [DecidableEq β] (digest : Digest α β) (src : Node α) (merge : Merge α)
    (dst dstRoot conflictRoot : List Name) (fs : Files α) : Option (Files α) :=
  match fs.lstat dst with
  | .notExist => copyMigratedEntry src merge dst fs
  | .failed => none
  | .found node =>
      match src, node with
      | .dir, .dir => merge dst fs
      | src, node =>
          if migratedEntriesEqual digest src node then some fs
          else preserveMigrationConflict digest src merge dst dstRoot conflictRoot fs

@[grind]
def mergeDirContents [DecidableEq β] (digest : Digest α β) (dstRoot conflictRoot : List Name) :
    Entries α → Merge α
  | .nil, _, fs => some fs
  | .leaf name leaf rest, dst, fs =>
      (migrateEntry digest (.leaf leaf) (fun _ fs => some fs) (dst ++ [name]) dstRoot conflictRoot
        fs).bind (mergeDirContents digest dstRoot conflictRoot rest dst)
  | .dir name children rest, dst, fs =>
      (migrateEntry digest .dir (mergeDirContents digest dstRoot conflictRoot children)
        (dst ++ [name]) dstRoot conflictRoot fs).bind
          (mergeDirContents digest dstRoot conflictRoot rest dst)

/-- An entry of the directory itself. -/
structure TopEntry (α : Type*) where
  name : Name
  node : Node α
  children : Entries α

def Entries.top : Entries α → List (TopEntry α)
  | nil => []
  | leaf name node rest => ⟨name, .leaf node, nil⟩ :: rest.top
  | dir name children rest => ⟨name, .dir, children⟩ :: rest.top

def confD : Name := "conf.d".toList

def conflictRootOf (dstDir : List Name) : List Name :=
  withSuffix dstDir ".migrated-conflicts".toList

/-- One round of the loop of `migrateDirContents`. -/
def migrateTopEntry [DecidableEq β] (digest : Digest α β) (dstDir : List Name) (fs : Files α)
    (entry : TopEntry α) : Option (Files α) :=
  let dstRoot := if entry.name = confD then conflictRootOf dstDir else dstDir
  migrateEntry digest entry.node
    (mergeDirContents digest dstRoot (conflictRootOf dstDir) entry.children)
    (dstRoot ++ [entry.name]) dstRoot (conflictRootOf dstDir) fs

def migrateDirContents [DecidableEq β] (digest : Digest α β) (src : SourceDir α)
    (dstDir : List Name) (fs : Files α) : Option (Files α) :=
  (fs.mkdirAll dstDir).bind fun fs => src.entries.top.foldlM (migrateTopEntry digest dstDir) fs

/-- `ensureSymlink` when the place of the link holds a directory, which is removed
once it has been migrated. The file system is that without this directory. -/
def ensureSymlink [DecidableEq β] (digest : Digest α β) (src : SourceDir α)
    (target : List Name) (text : List Char) (link : List Name) (fs : Files α) : Option (Files α) :=
  (migrateDirContents digest src target fs).bind fun fs => fs.create link (.leaf (.symlink text))

end GoSite.Bootstrap
