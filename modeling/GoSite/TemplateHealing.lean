import GoSite.MigrationRepeats

/-!
# Filling in missing template files

At startup the templates are merged into directories of the storage. What exists
there is left alone, whatever it is; a missing file is copied, and a missing
directory is copied whole.
-/
namespace GoSite.Bootstrap

open FileTrees Files Paths

variable {α : Type*}

/-- The listing of a template directory, each directory in it with its own. -/
inductive Template (α : Type*) where
  | nil
  | file (name : Name) (content : α) (rest : Template α)
  | dir (name : Name) (children rest : Template α)
  deriving Repr, DecidableEq

@[grind] def Template.names : Template α → List Name
  | nil => []
  | file name _ rest => name :: rest.names
  | dir name _ rest => name :: rest.names

/-- Names of entries are names, and they are different. -/
@[grind] def Template.WellFormed : Template α → Prop
  | nil => True
  | file name _ rest => Plain name ∧ name ∉ rest.names ∧ rest.WellFormed
  | dir name children rest =>
      Plain name ∧ name ∉ rest.names ∧ children.WellFormed ∧ rest.WellFormed

/-- A template has this file at this relative path. -/
@[grind] def Template.At : Template α → List Name → α → Prop
  | nil, _, _ => False
  | file name content rest, path, c => (path = [name] ∧ c = content) ∨ rest.At path c
  | dir name children rest, path, c =>
      (∃ below, path = name :: below ∧ children.At below c) ∨ rest.At path c

/-- What is merged: a directory, or a single file. -/
inductive TemplateTree (α : Type*) where
  | file (content : α)
  | dir (listing : Template α) (wellFormed : listing.WellFormed)

def TemplateTree.At : TemplateTree α → List Name → α → Prop
  | file content, path, c => path = [] ∧ c = content
  | dir listing _, path, c => listing.At path c

/-! ## The code -/

def copyFile (content : α) (dst : List Name) (fs : Files α) : Option (Files α) :=
  (fs.mkdirAll dst.dropLast).bind fun fs => fs.writeFile dst content

/-- The loop of `copyTree`. -/
@[grind] def copyEntries : Template α → List Name → Files α → Option (Files α)
  | .nil, _, fs => some fs
  | .file name content rest, dst, fs =>
      (copyFile content (dst ++ [name]) fs).bind (copyEntries rest dst)
  | .dir name children rest, dst, fs =>
      ((fs.mkdirAll (dst ++ [name])).bind (copyEntries children (dst ++ [name]))).bind
        (copyEntries rest dst)

def copyDirectory (listing : Template α) (dst : List Name) (fs : Files α) : Option (Files α) :=
  (fs.mkdirAll dst).bind (copyEntries listing dst)

def copyTree : TemplateTree α → List Name → Files α → Option (Files α)
  | .file content => copyFile content
  | .dir listing _ => copyDirectory listing

/-- `copyTreeMissing` of one entry, given what copies it and, for a directory,
what merges it. -/
def copyMissing (copy merge : Files α → Option (Files α)) (dst : List Name) (fs : Files α) :
    Option (Files α) :=
  match fs.lstat dst with
  | .notExist => copy fs
  | .failed => none
  | .found .dir => merge fs
  | .found (.leaf _) => some fs

/-- The loop of `copyTreeMissing`. -/
@[grind] def copyEntriesMissing : Template α → List Name → Files α → Option (Files α)
  | .nil, _, fs => some fs
  | .file name content rest, dst, fs =>
      (copyMissing (copyFile content (dst ++ [name])) some (dst ++ [name]) fs).bind
        (copyEntriesMissing rest dst)
  | .dir name children rest, dst, fs =>
      (copyMissing (copyDirectory children (dst ++ [name]))
        (copyEntriesMissing children (dst ++ [name])) (dst ++ [name]) fs).bind
          (copyEntriesMissing rest dst)

def copyTreeMissing (src : TemplateTree α) (dst : List Name) (fs : Files α) :
    Option (Files α) :=
  match src with
  | .file _ => copyMissing (copyTree src dst) some dst fs
  | .dir listing _ => copyMissing (copyTree src dst) (copyEntriesMissing listing dst) dst fs

/-! ## Copying to where there is nothing -/

section
variable {fs fs' : Files α} {dst path : List Name} {name : Name} {dir : Place}

theorem writeFile_free {content : α} (hname : Plain name) (hwalk : fs.walk path = .at dir)
    (hfree : fs.node (dir ++ [name]) = none)
    (h : fs.writeFile (path ++ [name]) content = some fs') :
    ∀ place, fs'.node place =
      if place = dir ++ [name] then some (.leaf (.file content)) else fs.node place := by
  obtain ⟨dir', name', hreach, -, hnodes⟩ := writeFile_spec h
  have hthere := reach_snoc hname hwalk (by simp [hfree]) (by simp [hfree])
  rw [hthere, Reached.entry.injEq] at hreach
  obtain ⟨rfl, rfl⟩ := hreach
  exact hnodes

/-- A new directory leaves everything else alone. -/
theorem mkdirAll_free (hname : Plain name) (hnone : fs.lstat (path ++ [name]) = .notExist)
    (h : fs.mkdirAll (path ++ [name]) = some fs') (hplain : ∀ e ∈ path, Plain e) :
    ∃ parent, fs.Extends fs' ∧ fs'.lstat (path ++ [name]) = .found .dir ∧
      fs'.walk (path ++ [name]) = .at (parent ++ [name]) ∧
      (∀ child, fs'.node (parent ++ [name] ++ [child]) = none) ∧
        ∀ dir, fs.walk path = .at dir → dir = parent ∧
          ∀ place, fs'.node place ≠ fs.node place → place = dir ++ [name] := by
  obtain ⟨found, hfound, -⟩ | ⟨middle, parent, hparents, hparent, hfree, hnodes⟩ :=
    mkdirAll_snoc h
  · obtain ⟨before, hbefore, ⟨hnode, -⟩ | ⟨text, hnode⟩⟩ := walk_of_snoc hname hfound
    · rw [lstat_snoc hbefore, hnode] at hnone
      cases hnone
    · rw [lstat_snoc hbefore, hnode] at hnone
      cases hnone
  · have hextends := extends_of_nodes hfree hnodes
    have hnew : fs'.node (parent ++ [name]) = some .dir := by rw [hnodes, if_pos rfl]
    refine ⟨parent, (mkdirAll_spec hplain hparents).1.trans hextends, ?_,
      walk_snoc hname (walk_mono hextends hparent) hnew, fun child => ?_, fun dir hwalk => ?_⟩
    · rw [lstat_snoc (walk_mono hextends hparent), hnew]
    · rw [hnodes, if_neg (by simp)]
      exact node_below hfree child
    · have hsame : dir = parent := by
        rw [mkdirAll_of_walk hwalk, Option.some.injEq] at hparents
        rw [← hparents, hwalk, Found.at.injEq] at hparent
        exact hparent
      exact ⟨hsame, fun place hplace => mkdirAll_last hwalk h hplace⟩

end

/-! ## What merging does -/

/-- On the way from a directory to a path there is no file and no link. -/
def OpenWay (fs : Files α) (dir : Place) (path : List Name) : Prop :=
  ∀ before after, path = before ++ after → before ≠ [] → after ≠ [] →
    ∀ l, fs.node (dir ++ before) ≠ some (.leaf l)

/-- Entries of a directory are filled in below `names`: whatever is on an open way
is there, and `again` has nothing left to do. -/
structure Heals (fs fs' : Files α) (dir : Place) (names : List Name)
    (has : List Name → α → Prop) (again : Files α → Option (Files α)) : Prop where
  grows : fs.Extends fs'
  changes : ∀ place, fs'.node place ≠ fs.node place → ∃ n ∈ names, dir ++ [n] <+: place
  present : ∀ path c, has path c → OpenWay fs dir path →
    fs'.node (dir ++ path) = some (.leaf (.file c)) ∨ fs.node (dir ++ path) ≠ none
  settled : ∀ t, fs'.Extends t → again t = some t

theorem Template.At.head {listing : Template α} {path : List Name} {c : α}
    (h : listing.At path c) : ∃ n below, path = n :: below ∧ n ∈ listing.names := by
  induction listing with
  | nil => exact h.elim
  | file name content rest ih =>
      obtain ⟨rfl, -⟩ | h := h
      · exact ⟨name, [], rfl, List.mem_cons_self⟩
      · obtain ⟨n, below, hpath, hn⟩ := ih h
        exact ⟨n, below, hpath, List.mem_cons_of_mem name hn⟩
  | dir name children rest _ ih =>
      obtain ⟨below, rfl, -⟩ | h := h
      · exact ⟨name, below, rfl, List.mem_cons_self⟩
      · obtain ⟨n, below, hpath, hn⟩ := ih h
        exact ⟨n, below, hpath, List.mem_cons_of_mem name hn⟩

section
variable {fs fs₁ fs' : Files α} {dst : List Name} {name : Name} {dir : Place}

theorem Heals.refl {names : List Name} {has : List Name → α → Prop}
    {again : Files α → Option (Files α)}
    (hpresent : ∀ path c, has path c → OpenWay fs dir path → fs.node (dir ++ path) ≠ none)
    (hsettled : ∀ t, fs.Extends t → again t = some t) : Heals fs fs dir names has again where
  grows := Extends.refl fs
  changes _ h := absurd rfl h
  present path c h hopen := .inr (hpresent path c h hopen)
  settled := hsettled

/-- The entries behind the first one are not touched by it. -/
theorem Heals.node_eq {has : List Name → α → Prop} {again : Files α → Option (Files α)}
    (h : Heals fs fs₁ dir [name] has again) {n : Name} (hn : n ≠ name) (below : List Name) :
    fs₁.node (dir ++ n :: below) = fs.node (dir ++ n :: below) := by
  by_contra hchange
  obtain ⟨m, hm, hpre⟩ := h.changes _ hchange
  rw [List.mem_singleton.mp hm, List.prefix_append_right_inj, List.cons_prefix_cons] at hpre
  exact hn hpre.1.symm

/-- The first entry of a listing, and then the others. -/
theorem Heals.cons {names : List Name} {has has' : List Name → α → Prop}
    {again again' : Files α → Option (Files α)} (h : Heals fs fs₁ dir [name] has again)
    (h' : Heals fs₁ fs' dir names has' again') (hname : name ∉ names)
    (hhead : ∀ path c, has' path c → ∃ n below, path = n :: below ∧ n ∈ names) :
    Heals fs fs' dir (name :: names) (fun path c => has path c ∨ has' path c)
      (fun t => (again t).bind again') where
  grows := h.grows.trans h'.grows
  changes := by
    intro place hchange
    by_cases hsame : fs'.node place = fs₁.node place
    · rw [hsame] at hchange
      obtain ⟨n, hn, hpre⟩ := h.changes place hchange
      exact ⟨n, List.mem_singleton.mp hn ▸ List.mem_cons_self, hpre⟩
    · obtain ⟨n, hn, hpre⟩ := h'.changes place hsame
      exact ⟨n, List.mem_cons_of_mem name hn, hpre⟩
  present := by
    rintro path c (hhas | hhas) hopen
    · obtain hfile | hthere := h.present path c hhas hopen
      · exact .inl (h'.grows _ _ hfile)
      · exact .inr hthere
    · obtain ⟨n, below, rfl, hn⟩ := hhead path c hhas
      have hne : n ≠ name := fun heq => hname (heq ▸ hn)
      rw [← h.node_eq hne]
      refine h'.present _ c hhas fun before after hpath hbefore hafter l => ?_
      cases before with
      | nil => exact absurd rfl hbefore
      | cons m before =>
          obtain ⟨rfl, -⟩ := List.cons.inj hpath
          rw [h.node_eq hne]
          exact hopen _ after hpath hbefore hafter l
  settled := by
    intro t ht
    simp only [h.settled t (h'.grows.trans ht), Option.bind_some, h'.settled t ht]

/-! ## One entry -/

/-- The files of an entry that is a file. -/
def fileAt (name : Name) (content : α) (path : List Name) (c : α) : Prop :=
  path = [name] ∧ c = content

/-- The files of an entry that is a directory. -/
def below (name : Name) (children : Template α) (path : List Name) (c : α) : Prop :=
  ∃ rest, path = name :: rest ∧ children.At rest c

theorem copyFile_heals {content : α} (hname : Plain name) (hwalk : fs.walk dst = .at dir)
    (hfree : fs.node (dir ++ [name]) = none)
    (h : copyFile content (dst ++ [name]) fs = some fs') (copy : Files α → Option (Files α)) :
    Heals fs fs' dir [name] (fileAt name content) (copyMissing copy some (dst ++ [name])) := by
  rw [copyFile, List.dropLast_concat, mkdirAll_of_walk hwalk, Option.bind_some] at h
  have hnodes := writeFile_free hname hwalk hfree h
  have hextends := extends_of_nodes hfree hnodes
  have hnew : fs'.node (dir ++ [name]) = some (.leaf (.file content)) := by
    rw [hnodes, if_pos rfl]
  refine ⟨hextends, fun place hchange => ⟨name, List.mem_singleton_self name, ?_⟩, ?_, ?_⟩
  · rw [hnodes] at hchange
    split_ifs at hchange with hplace
    · rw [hplace]
    · exact absurd rfl hchange
  · rintro path c ⟨rfl, rfl⟩ -
    exact .inl hnew
  · intro t ht
    rw [copyMissing, lstat_snoc (walk_mono (hextends.trans ht) hwalk), ht _ _ hnew]

theorem copyDirectory_heals {children : Template α} (hname : Plain name)
    (hplain : ∀ e ∈ dst, Plain e) (hwalk : fs.walk dst = .at dir)
    (hfree : fs.node (dir ++ [name]) = none)
    (h : copyDirectory children (dst ++ [name]) fs = some fs')
    (hcopy : ∀ made, made.walk (dst ++ [name]) = .at (dir ++ [name]) →
      (∀ child, made.node (dir ++ [name] ++ [child]) = none) →
        copyEntries children (dst ++ [name]) made = some fs' →
          Heals made fs' (dir ++ [name]) children.names children.At
            (copyEntriesMissing children (dst ++ [name])))
    (copy : Files α → Option (Files α)) :
    Heals fs fs' dir [name] (below name children)
      (copyMissing copy (copyEntriesMissing children (dst ++ [name])) (dst ++ [name])) := by
  have hnone : fs.lstat (dst ++ [name]) = .notExist := by rw [lstat_snoc hwalk, hfree]
  obtain ⟨made, hmkdir, hmerge⟩ := Option.bind_eq_some_iff.mp h
  obtain ⟨parent, hgrows, hfound, hinto, hempty, hmade⟩ :=
    mkdirAll_free hname hnone hmkdir hplain
  obtain ⟨rfl, hchanges⟩ := hmade dir hwalk
  have hheals := hcopy made hinto hempty hmerge
  refine ⟨hgrows.trans hheals.grows, fun place hchange => ⟨name, List.mem_singleton_self name, ?_⟩,
    ?_, ?_⟩
  · by_cases hsame : fs'.node place = made.node place
    · rw [hsame] at hchange
      rw [hchanges place hchange]
    · obtain ⟨n, -, hpre⟩ := hheals.changes place hsame
      exact (List.prefix_append _ _).trans hpre
  · rintro path c ⟨rest, rfl, hat⟩ -
    obtain ⟨n, more, rfl, -⟩ := hat.head
    have hnothing : ∀ after, made.node (dir ++ [name] ++ n :: after) = none := fun after =>
      node_prefix ⟨after, by simp⟩ (hempty n)
    have hplace : dir ++ name :: n :: more = dir ++ [name] ++ n :: more := by simp
    rw [hplace]
    refine .inl ((hheals.present _ c hat ?_).resolve_right fun hthere => hthere (hnothing more))
    intro before after hpath hbefore _ l
    cases before with
    | nil => exact absurd rfl hbefore
    | cons m before =>
        obtain ⟨rfl, -⟩ := List.cons.inj hpath
        rw [hnothing]
        simp
  · intro t ht
    rw [copyMissing, lstat_mono (hheals.grows.trans ht) hfound]
    exact hheals.settled t ht

/-- A file of the template: it is copied, or what is there is left alone. -/
theorem fileMissing_heals {content : α} (hname : Plain name) (hwalk : fs.walk dst = .at dir)
    (h : copyMissing (copyFile content (dst ++ [name])) some (dst ++ [name]) fs = some fs') :
    Heals fs fs' dir [name] (fileAt name content)
      (copyMissing (copyFile content (dst ++ [name])) some (dst ++ [name])) := by
  have hlstat := lstat_snoc hwalk name
  cases hnode : fs.node (dir ++ [name]) with
  | none =>
      rw [hnode] at hlstat
      simp only [copyMissing, hlstat] at h
      exact copyFile_heals hname hwalk hnode h _
  | some node =>
      rw [hnode] at hlstat
      have hsame : fs' = fs := by
        cases node <;> (simp only [copyMissing, hlstat, Option.some.injEq] at h; exact h.symm)
      subst hsame
      refine Heals.refl ?_ fun t ht => ?_
      · rintro path c ⟨rfl, -⟩ -
        rw [hnode]
        exact Option.some_ne_none node
      · rw [copyMissing, lstat_mono ht hlstat]
        cases node <;> rfl

/-- A directory of the template: it is copied, merged, or what is there is left
alone. -/
theorem directoryMissing_heals {children : Template α} (hname : Plain name)
    (hplain : ∀ e ∈ dst, Plain e) (hwalk : fs.walk dst = .at dir)
    (h : copyMissing (copyDirectory children (dst ++ [name]))
      (copyEntriesMissing children (dst ++ [name])) (dst ++ [name]) fs = some fs')
    (hcopy : ∀ made, made.walk (dst ++ [name]) = .at (dir ++ [name]) →
      (∀ child, made.node (dir ++ [name] ++ [child]) = none) →
        copyEntries children (dst ++ [name]) made = some fs' →
          Heals made fs' (dir ++ [name]) children.names children.At
            (copyEntriesMissing children (dst ++ [name])))
    (hmerge : fs.walk (dst ++ [name]) = .at (dir ++ [name]) →
      copyEntriesMissing children (dst ++ [name]) fs = some fs' →
        Heals fs fs' (dir ++ [name]) children.names children.At
          (copyEntriesMissing children (dst ++ [name]))) :
    Heals fs fs' dir [name] (below name children)
      (copyMissing (copyDirectory children (dst ++ [name]))
        (copyEntriesMissing children (dst ++ [name])) (dst ++ [name])) := by
  have hlstat := lstat_snoc hwalk name
  cases hnode : fs.node (dir ++ [name]) with
  | none =>
      rw [hnode] at hlstat
      simp only [copyMissing, hlstat] at h
      exact copyDirectory_heals hname hplain hwalk hnode h hcopy _
  | some node =>
      rw [hnode] at hlstat
      cases node with
      | dir =>
          simp only [copyMissing, hlstat] at h
          have hheals := hmerge (walk_snoc hname hwalk hnode) h
          refine ⟨hheals.grows, fun place hchange => ⟨name, List.mem_singleton_self name, ?_⟩,
            ?_, ?_⟩
          · obtain ⟨n, -, hpre⟩ := hheals.changes place hchange
            exact (List.prefix_append _ _).trans hpre
          · rintro path c ⟨rest, rfl, hat⟩ hopen
            have hplace : ∀ more, dir ++ name :: more = dir ++ [name] ++ more := by simp
            rw [hplace]
            refine hheals.present rest c hat fun before after hpath hbefore hafter l => ?_
            rw [← hplace]
            exact hopen (name :: before) after (by rw [hpath]; rfl) (by simp) hafter l
          · intro t ht
            rw [copyMissing, lstat_mono (hheals.grows.trans ht) hlstat]
            exact hheals.settled t ht
      | leaf l =>
          simp only [copyMissing, hlstat, Option.some.injEq] at h
          subst h
          refine Heals.refl ?_ fun t ht => ?_
          · rintro path c ⟨rest, rfl, hat⟩ hopen
            obtain ⟨n, more, rfl, -⟩ := hat.head
            exact absurd hnode (hopen [name] (n :: more) rfl (by simp) (by simp) l)
          · rw [copyMissing, lstat_mono ht hlstat]

/-! ## All entries -/

theorem copyEntries_heals {listing : Template α} (hwf : listing.WellFormed)
    (hplain : ∀ e ∈ dst, Plain e) (hwalk : fs.walk dst = .at dir)
    (hfree : ∀ n ∈ listing.names, fs.node (dir ++ [n]) = none)
    (h : copyEntries listing dst fs = some fs') :
    Heals fs fs' dir listing.names listing.At (copyEntriesMissing listing dst) := by
  induction listing generalizing dst dir fs fs' with
  | nil =>
      obtain rfl := Option.some.inj h
      exact Heals.refl (fun _ _ hat => hat.elim) fun _ _ => rfl
  | file name content rest ih =>
      obtain ⟨hname, hnew, hwf⟩ := hwf
      obtain ⟨fs₁, hentry, hrest⟩ := Option.bind_eq_some_iff.mp h
      have hfirst := copyFile_heals hname hwalk (hfree name List.mem_cons_self) hentry
        (copyFile content (dst ++ [name]))
      have hothers := ih hwf hplain (walk_mono hfirst.grows hwalk) (fun n hn => by
        rw [hfirst.node_eq (fun heq => hnew (heq ▸ hn)) []]
        exact hfree n (List.mem_cons_of_mem name hn)) hrest
      exact hfirst.cons hothers hnew fun path c hat => hat.head
  | dir name children rest ihc ih =>
      obtain ⟨hname, hnew, hwfc, hwf⟩ := hwf
      have hpath : ∀ e ∈ dst ++ [name], Plain e := by
        simpa [or_imp, forall_and] using And.intro hplain hname
      obtain ⟨fs₁, hentry, hrest⟩ := Option.bind_eq_some_iff.mp h
      have hfirst := copyDirectory_heals hname hplain hwalk (hfree name List.mem_cons_self) hentry
        (fun made hinto hempty hcopy => ihc hwfc hpath hinto (fun n _ => hempty n) hcopy)
        (copyDirectory children (dst ++ [name]))
      have hothers := ih hwf hplain (walk_mono hfirst.grows hwalk) (fun n hn => by
        rw [hfirst.node_eq (fun heq => hnew (heq ▸ hn)) []]
        exact hfree n (List.mem_cons_of_mem name hn)) hrest
      exact hfirst.cons hothers hnew fun path c hat => hat.head

theorem copyEntriesMissing_heals {listing : Template α} (hwf : listing.WellFormed)
    (hplain : ∀ e ∈ dst, Plain e) (hwalk : fs.walk dst = .at dir)
    (h : copyEntriesMissing listing dst fs = some fs') :
    Heals fs fs' dir listing.names listing.At (copyEntriesMissing listing dst) := by
  induction listing generalizing dst dir fs fs' with
  | nil =>
      obtain rfl := Option.some.inj h
      exact Heals.refl (fun _ _ hat => hat.elim) fun _ _ => rfl
  | file name content rest ih =>
      obtain ⟨hname, hnew, hwf⟩ := hwf
      obtain ⟨fs₁, hentry, hrest⟩ := Option.bind_eq_some_iff.mp h
      have hfirst := fileMissing_heals hname hwalk hentry
      have hothers := ih hwf hplain (walk_mono hfirst.grows hwalk) hrest
      exact hfirst.cons hothers hnew fun path c hat => hat.head
  | dir name children rest ihc ih =>
      obtain ⟨hname, hnew, hwfc, hwf⟩ := hwf
      have hpath : ∀ e ∈ dst ++ [name], Plain e := by
        simpa [or_imp, forall_and] using And.intro hplain hname
      obtain ⟨fs₁, hentry, hrest⟩ := Option.bind_eq_some_iff.mp h
      have hfirst := directoryMissing_heals hname hplain hwalk hentry
        (fun made hinto hempty hcopy => copyEntries_heals hwfc hpath hinto
          (fun n _ => hempty n) hcopy)
        (fun hinto hmerge => ihc hwfc hpath hinto hmerge)
      have hothers := ih hwf hplain (walk_mono hfirst.grows hwalk) hrest
      exact hfirst.cons hothers hnew fun path c hat => hat.head

/-! ## Paths below the destination -/

theorem Template.At.plain {listing : Template α} (hwf : listing.WellFormed) {path : List Name}
    {c : α} (h : listing.At path c) : path ≠ [] ∧ ∀ e ∈ path, Plain e := by
  induction listing generalizing path with
  | nil => exact h.elim
  | file name content rest ih =>
      obtain ⟨rfl, -⟩ | h := h
      · simpa using hwf.1
      · exact ih hwf.2.2 h
  | dir name children rest ihc ih =>
      obtain ⟨below, rfl, h⟩ | h := h
      · exact ⟨by simp, List.forall_mem_cons.mpr ⟨hwf.1, (ihc hwf.2.2.1 h).2⟩⟩
      · exact ih hwf.2.2.2 h

/-- What lies below a directory is found there. -/
theorem lstat_of_node (hwalk : fs.walk dst = .at dir) {path : List Name} {node : Node α}
    (hne : path ≠ []) (hplain : ∀ e ∈ path, Plain e) (h : fs.node (dir ++ path) = some node) :
    fs.lstat (dst ++ path) = .found node := by
  obtain ⟨rel, last, rfl⟩ := List.eq_nil_or_concat path |>.resolve_left hne
  rw [List.concat_eq_append] at h hplain ⊢
  rw [← List.append_assoc] at h ⊢
  have hinto : fs.walk (dst ++ rel) = .at (dir ++ rel) := by
    have hdir : fs.node (dir ++ rel) = some .dir :=
      fs.parent (dir ++ rel) last (by rw [← Files.node, h]; exact Option.some_ne_none node)
    have hrel : ∀ e ∈ rel, Plain e := fun e he => hplain e (List.mem_append_left _ he)
    clear h hne hplain
    induction rel using List.reverseRecOn with
    | nil => simpa using hwalk
    | append_singleton rel n ih =>
        rw [← List.append_assoc] at hdir ⊢
        rw [← List.append_assoc]
        have hparent : fs.node (dir ++ rel) = some .dir :=
          fs.parent (dir ++ rel) n (by rw [← Files.node, hdir]; exact Option.some_ne_none _)
        exact walk_snoc (hrel n (by simp))
          (ih hparent fun e he => hrel e (List.mem_append_left _ he)) hdir
  rw [lstat_snoc hinto, h]

/-- A file of the template is there after the merge of a directory. -/
theorem Heals.found {listing : Template α} (hwf : listing.WellFormed)
    {again : Files α → Option (Files α)}
    (h : Heals fs fs' dir listing.names listing.At again) (hwalk : fs.walk dst = .at dir)
    {path : List Name} {c : α} (hat : listing.At path c)
    (hopen : ∀ before after, path = before ++ after → after ≠ [] →
      ∀ l, fs.lstat (dst ++ before) ≠ .found (.leaf l)) :
    ∃ node, fs'.lstat (dst ++ path) = .found node ∧
      (node = .leaf (.file c) ∨ fs.lstat (dst ++ path) = .found node) := by
  obtain ⟨hne, hplain⟩ := hat.plain hwf
  have hway : OpenWay fs dir path := by
    intro before after hpath hbefore hafter l hnode
    refine hopen before after hpath hafter l (lstat_of_node hwalk hbefore (fun e he => ?_) hnode)
    exact hplain e (hpath ▸ List.mem_append_left after he)
  obtain hfile | hthere := h.present path c hat hway
  · exact ⟨_, lstat_of_node (walk_mono h.grows hwalk) hne hplain hfile, .inl rfl⟩
  · obtain ⟨node, hnode⟩ := Option.ne_none_iff_exists'.mp hthere
    exact ⟨node, lstat_of_node (walk_mono h.grows hwalk) hne hplain (h.grows _ _ hnode),
      .inr (lstat_of_node hwalk hne hplain hnode)⟩

/-- A place that is free stays free when the directories on the way are made. -/
theorem free_of_mkdirAll {path : List Name} (hplain : ∀ e ∈ path ++ [name], Plain e)
    (hnone : fs.lstat (path ++ [name]) = .notExist) (h : fs.mkdirAll path = some fs') :
    ∃ dir, fs.Extends fs' ∧ fs'.walk path = .at dir ∧ fs'.node (dir ++ [name]) = none := by
  obtain ⟨hgrows, dir, hwalk⟩ :=
    mkdirAll_spec (fun e he => hplain e (List.mem_append_left _ he)) h
  refine ⟨dir, hgrows, hwalk, ?_⟩
  cases hbefore : fs.walk path with
  | «at» found =>
      rw [mkdirAll_of_walk hbefore, Option.some.injEq] at h
      subst h
      rw [hbefore, Found.at.injEq] at hwalk
      subst hwalk
      rw [lstat_snoc hbefore] at hnone
      cases hnode : fs.node (found ++ [name]) with
      | none => rfl
      | some node =>
          rw [hnode] at hnone
          cases hnone
  | missing =>
      obtain rfl | ⟨init, last, rfl⟩ := List.eq_nil_or_concat path
      · cases hbefore
      · rw [List.concat_eq_append] at *
        obtain ⟨found, hfound, -⟩ | ⟨middle, parent, -, hparent, hfree, hnodes⟩ := mkdirAll_snoc h
        · rw [hbefore] at hfound
          cases hfound
        · have hinto : fs'.walk (init ++ [last]) = .at (parent ++ [last]) := by
            refine walk_snoc (hplain last (by simp))
              (walk_mono (extends_of_nodes hfree hnodes) hparent) ?_
            rw [hnodes, if_pos rfl]
          rw [hwalk, Found.at.injEq] at hinto
          rw [hinto, hnodes, if_neg (by simp)]
          exact node_below hfree name
  | broken =>
      rw [lstat, List.getLast?_concat, List.dropLast_concat, hbefore] at hnone
      cases hnone

end

theorem copyFileMissing_adds {content : α} {dst : List Name} {fs fs' : Files α}
    (hplain : ∀ e ∈ dst, Plain e)
    (h : copyMissing (copyFile content dst) some dst fs = some fs') :
    fs.Extends fs' ∧
      (∃ node, fs'.lstat dst = .found node ∧
        (node = .leaf (.file content) ∨ fs.lstat dst = .found node)) ∧
      copyMissing (copyFile content dst) some dst fs' = some fs' := by
  cases hlstat : fs.lstat dst with
  | failed =>
      simp only [copyMissing, hlstat] at h
      cases h
  | found node =>
      have hsame : fs' = fs := by
        cases node <;> (simp only [copyMissing, hlstat, Option.some.injEq] at h; exact h.symm)
      subst hsame
      exact ⟨Extends.refl _, ⟨node, hlstat, .inr rfl⟩, h⟩
  | notExist =>
      simp only [copyMissing, hlstat] at h
      obtain rfl | ⟨path, name, rfl⟩ := List.eq_nil_or_concat dst
      · cases hlstat
      · rw [List.concat_eq_append] at *
        rw [copyFile, List.dropLast_concat] at h
        obtain ⟨made, hmkdir, hwrite⟩ := Option.bind_eq_some_iff.mp h
        obtain ⟨dir, hgrows, hwalk, hfree⟩ := free_of_mkdirAll hplain hlstat hmkdir
        have hnodes := writeFile_free (hplain name (by simp)) hwalk hfree hwrite
        have hextends := extends_of_nodes hfree hnodes
        have hfound : fs'.lstat (path ++ [name]) = .found (.leaf (.file content)) := by
          rw [lstat_snoc (walk_mono hextends hwalk), hnodes, if_pos rfl]
        refine ⟨hgrows.trans hextends, ⟨_, hfound, .inl rfl⟩, ?_⟩
        rw [copyMissing, hfound]

theorem copyDirectoryMissing_adds {listing : Template α} (hwf : listing.WellFormed)
    {dst : List Name} {fs fs' : Files α} (hplain : ∀ e ∈ dst, Plain e)
    (h : copyMissing (copyDirectory listing dst) (copyEntriesMissing listing dst) dst fs =
      some fs') :
    fs.Extends fs' ∧
      (∀ path content, listing.At path content →
        (∀ before after, path = before ++ after → after ≠ [] →
          ∀ leaf, fs.lstat (dst ++ before) ≠ .found (.leaf leaf)) →
        ∃ node, fs'.lstat (dst ++ path) = .found node ∧
          (node = .leaf (.file content) ∨ fs.lstat (dst ++ path) = .found node)) ∧
      copyMissing (copyDirectory listing dst) (copyEntriesMissing listing dst) dst fs' =
        some fs' := by
  cases hlstat : fs.lstat dst with
  | failed =>
      simp only [copyMissing, hlstat] at h
      cases h
  | found node =>
      cases node with
      | leaf l =>
          have hsame : fs' = fs := by
            simp only [copyMissing, hlstat, Option.some.injEq] at h
            exact h.symm
          subst hsame
          refine ⟨Extends.refl _, fun path content hat hopen => ?_, h⟩
          refine absurd ?_ (hopen [] path rfl (hat.plain hwf).1 l)
          rwa [List.append_nil]
      | dir =>
          simp only [copyMissing, hlstat] at h
          obtain ⟨dir, hwalk⟩ : ∃ dir, fs.walk dst = .at dir := by
            obtain rfl | ⟨path, name, rfl⟩ := List.eq_nil_or_concat dst
            · exact ⟨[], rfl⟩
            · rw [List.concat_eq_append] at *
              obtain ⟨parent, hparent, hnode⟩ := walk_of_lstat hlstat
              exact ⟨_, walk_snoc (hplain name (by simp)) hparent hnode⟩
          have hheals := copyEntriesMissing_heals hwf hplain hwalk h
          refine ⟨hheals.grows, fun path content hat hopen => hheals.found hwf hwalk hat hopen, ?_⟩
          have hthere : fs'.lstat dst = .found .dir := by
            obtain rfl | ⟨path, name, rfl⟩ := List.eq_nil_or_concat dst
            · rfl
            · rw [List.concat_eq_append] at *
              exact lstat_mono hheals.grows hlstat
          rw [copyMissing, hthere]
          exact hheals.settled fs' (Extends.refl fs')
  | notExist =>
      simp only [copyMissing, hlstat] at h
      obtain rfl | ⟨path, name, rfl⟩ := List.eq_nil_or_concat dst
      · cases hlstat
      · rw [List.concat_eq_append] at *
        obtain ⟨made, hmkdir, hcopy⟩ := Option.bind_eq_some_iff.mp h
        obtain ⟨parent, hgrows, hfound, hinto, hempty, -⟩ :=
          mkdirAll_free (hplain name (by simp)) hlstat hmkdir
            (fun e he => hplain e (List.mem_append_left _ he))
        have hheals := copyEntries_heals hwf hplain hinto (fun n _ => hempty n) hcopy
        refine ⟨hgrows.trans hheals.grows, fun path' content hat _ => ?_, ?_⟩
        · have hnothing : ∀ below, below ≠ [] →
              made.node (parent ++ [name] ++ below) = none := by
            intro below hbelow
            obtain ⟨n, more, rfl⟩ := List.exists_cons_of_ne_nil hbelow
            exact node_prefix ⟨more, by simp⟩ (hempty n)
          obtain ⟨hne, hrel⟩ := hat.plain hwf
          refine ⟨_, lstat_of_node (walk_mono hheals.grows hinto) hne hrel
            ((hheals.present path' content hat ?_).resolve_right fun hthere =>
              hthere (hnothing path' hne)), .inl rfl⟩
          intro before after _ hbefore _ l
          rw [hnothing before hbefore]
          simp
        · rw [copyMissing, lstat_mono hheals.grows hfound]
          exact hheals.settled fs' (Extends.refl fs')

/-- When the templates have been merged, nothing that existed has changed, every
file of the template is there unless a file or a link of the destination is on its
way, with the content of the template if there was nothing, and merging them again
changes nothing. -/
theorem healing_only_adds (src : TemplateTree α) (dst : List Name) (fs fs' : Files α)
    (hplain : ∀ e ∈ dst, Plain e) (h : copyTreeMissing src dst fs = some fs') :
    (∀ place node, fs.node place = some node → fs'.node place = some node) ∧
      (∀ path content, src.At path content →
        (∀ before after, path = before ++ after → after ≠ [] →
          ∀ leaf, fs.lstat (dst ++ before) ≠ .found (.leaf leaf)) →
        ∃ node, fs'.lstat (dst ++ path) = .found node ∧
          (node = .leaf (.file content) ∨ fs.lstat (dst ++ path) = .found node)) ∧
      copyTreeMissing src dst fs' = some fs' := by
  cases src with
  | file content =>
      obtain ⟨hgrows, hfound, hagain⟩ := copyFileMissing_adds hplain h
      refine ⟨hgrows, ?_, hagain⟩
      rintro path c ⟨rfl, rfl⟩ -
      rwa [List.append_nil]
  | dir listing hwf =>
      obtain ⟨hgrows, hfound, hagain⟩ := copyDirectoryMissing_adds hwf hplain h
      exact ⟨hgrows, hfound, hagain⟩

/-- Two files in a template, one of them in a directory. -/
def smallTemplate : TemplateTree ℕ :=
  .dir (.dir "d".toList (.file "x".toList 5 .nil) (.file "a".toList 6 .nil))
    (by simp only [Template.WellFormed, Template.names]; decide)

theorem healing_only_adds_small : ∃ fs fs', smallTarget = some fs ∧
    copyTreeMissing smallTemplate ["t".toList] fs = some fs' ∧
      fs'.node ["t".toList, "a".toList] = some (.leaf (.file 1)) ∧
        copyTreeMissing smallTemplate ["t".toList] fs' = some fs' := by
  have hrun : (copyTreeMissing smallTemplate ["t".toList]
      (smallTarget.get (by decide))).isSome = true := by decide
  obtain ⟨hkept, -, hagain⟩ := healing_only_adds smallTemplate ["t".toList]
    (smallTarget.get (by decide)) _ (by decide) (Option.some_get hrun).symm
  exact ⟨_, _, (Option.some_get _).symm, (Option.some_get hrun).symm, hkept _ _ (by decide),
    hagain⟩

end GoSite.Bootstrap
