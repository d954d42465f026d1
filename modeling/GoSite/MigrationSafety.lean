import GoSite.DirectoryMigration

/-!
# A migrated directory loses nothing

Every operation of the migration adds an entry where there was none, so the file
system only grows. By induction on the source each of its files is found again:
where it was copied to, where its equal stood, or beside it under a new name.
-/
namespace GoSite.Bootstrap

open FileTrees Files Paths
open GoSite.Terminal (cleanElement)

variable {α β : Type*}

/-- A source has this file or link at this relative path. -/
@[grind] def Entries.At : Entries α → List Name → Leaf α → Prop
  | nil, _, _ => False
  | leaf name node rest, path, l => (path = [name] ∧ l = node) ∨ rest.At path l
  | dir name children rest, path, l =>
      (∃ below, path = name :: below ∧ children.At below l) ∨ rest.At path l

/-- The same, from an entry downwards. -/
def NodeAt (node : Node α) (children : Entries α) (path : List Name) (l : Leaf α) : Prop :=
  match node with
  | .leaf m => path = [] ∧ l = m
  | .dir => children.At path l

/-- What is written behind the name of an entry that conflicts. -/
def MigratedSuffix (suffix : List Char) : Prop :=
  suffix = ".migrated".toList ∨ ∃ n ≥ 1, suffix = ".migrated".toList ++ '.' :: Nat.toDigits 10 n

/-- A relative path with at most one name extended. -/
def Extended (path extended : List Name) : Prop :=
  extended = path ∨ ∃ before name below suffix, path = before ++ name :: below ∧
    extended = before ++ (name ++ suffix) :: below ∧ MigratedSuffix suffix

def ChangesUnder (fs fs' : Files α) (dir : Place) : Prop :=
  ∀ place, fs'.node place ≠ fs.node place → dir <+: place

/-- A source directory is copied whole into a directory without its names. -/
def Copies (children : Entries α) (merge : Merge α) (dst : List Name) : Prop :=
  ∀ fs fs' dir, fs.walk dst = .at dir → (∀ name ∈ children.names, fs.node (dir ++ [name]) = none) →
    merge dst fs = some fs' → fs.Extends fs' ∧
      (∀ place, fs'.node place ≠ fs.node place → ∃ name ∈ children.names, dir ++ [name] <+: place) ∧
      ∀ path l, children.At path l → l ≠ .special → fs'.lstat (dst ++ path) = .found (.leaf l)

theorem at_ne_nil {children : Entries α} {l : Leaf α} : ¬ children.At [] l := by
  induction children with
  | nil => exact id
  | leaf name node rest ih =>
      intro h
      rcases h with ⟨h, -⟩ | h
      · cases h
      · exact ih h
  | dir name children rest _ ih =>
      intro h
      rcases h with ⟨below, h, -⟩ | h
      · cases h
      · exact ih h

/-- What was found below a directory stays found. -/
theorem lstat_below_mono {fs fs' : Files α} (h : fs.Extends fs') {dst path : List Name}
    {node : Node α} (hne : path ≠ []) (hfound : fs.lstat (dst ++ path) = .found node) :
    fs'.lstat (dst ++ path) = .found node := by
  obtain ⟨init, last, rfl⟩ := List.eq_nil_or_concat path |>.resolve_left hne
  rw [List.concat_eq_append, ← List.append_assoc] at hfound ⊢
  exact lstat_mono h hfound

/-- An entry is copied to a place where there is nothing. -/
theorem copyMigratedEntry_spec {node : Node α} {children : Entries α} {merge : Merge α}
    {path : List Name} {name : Name} {fs fs' : Files α} (hnode : node ≠ .leaf .special)
    (hplain : ∀ e ∈ path ++ [name], Plain e)
    (hcopies : node = .dir → Copies children merge (path ++ [name]))
    (h : copyMigratedEntry node merge (path ++ [name]) fs = some fs') :
    ∃ fs₁ dir, fs.mkdirAll path = some fs₁ ∧ fs₁.walk path = .at dir ∧
      fs₁.node (dir ++ [name]) = none ∧ fs₁.Extends fs' ∧ ChangesUnder fs₁ fs' (dir ++ [name]) ∧
      ∀ below l, NodeAt node children below l → l ≠ .special →
        fs'.lstat (path ++ [name] ++ below) = .found (.leaf l) := by
  cases node with
  | leaf leaf =>
      have hcreate : (fs.mkdirAll path).bind
          (fun fs => fs.create (path ++ [name]) (.leaf leaf)) = some fs' := by
        cases leaf with
        | special => exact absurd rfl hnode
        | file content => simpa [copyMigratedEntry] using h
        | symlink text => simpa [copyMigratedEntry] using h
      obtain ⟨fs₁, hmkdir, hcreate⟩ := Option.bind_eq_some_iff.mp hcreate
      obtain ⟨dir, hwalk, hfree, hnodes⟩ := create_spec hcreate
      have hextends := extends_of_nodes hfree hnodes
      refine ⟨fs₁, dir, hmkdir, hwalk, hfree, hextends, ?_, ?_⟩
      · intro place hchange
        rw [hnodes] at hchange
        split_ifs at hchange with hplace
        · rw [hplace]
        · exact absurd rfl hchange
      · rintro below l ⟨rfl, rfl⟩ -
        rw [List.append_nil, lstat_snoc (walk_mono hextends hwalk), hnodes, if_pos rfl]
  | dir =>
      rw [copyMigratedEntry, List.dropLast_concat] at h
      obtain ⟨fs₂, hmade, hmerge⟩ := Option.bind_eq_some_iff.mp h
      obtain ⟨fs₁, hmkdir, hcreate⟩ := Option.bind_eq_some_iff.mp hmade
      obtain ⟨dir, hwalk, hfree, hnodes⟩ := create_spec hcreate
      have hextends := extends_of_nodes hfree hnodes
      have hinto : fs₂.walk (path ++ [name]) = .at (dir ++ [name]) := by
        refine walk_snoc (hplain name (by simp)) (walk_mono hextends hwalk) ?_
        rw [hnodes, if_pos rfl]
      have hempty : ∀ child ∈ children.names, fs₂.node (dir ++ [name] ++ [child]) = none := by
        intro child _
        rw [hnodes, if_neg (by simp)]
        exact node_below hfree child
      obtain ⟨hmore, hchanges, hplaced⟩ := hcopies rfl fs₂ fs' _ hinto hempty hmerge
      refine ⟨fs₁, dir, hmkdir, hwalk, hfree, hextends.trans hmore, ?_, hplaced⟩
      intro place hchange
      by_cases hsame : fs'.node place = fs₂.node place
      · rw [hsame, hnodes] at hchange
        split_ifs at hchange with hplace
        · rw [hplace]
        · exact absurd rfl hchange
      · obtain ⟨child, -, hpre⟩ := hchanges place hsame
        exact (List.prefix_append _ _).trans hpre

theorem migrateEntry_fresh [DecidableEq β] {digest : Digest α β} {node : Node α}
    {children : Entries α} {merge : Merge α} {dst dstRoot conflictRoot : List Name} {name : Name}
    {fs fs' : Files α} {dir : Place} (hplain : ∀ e ∈ dst ++ [name], Plain e)
    (hcopies : node = .dir → Copies children merge (dst ++ [name]))
    (hwalk : fs.walk dst = .at dir) (hfree : fs.node (dir ++ [name]) = none)
    (h : migrateEntry digest node merge (dst ++ [name]) dstRoot conflictRoot fs = some fs') :
    fs.Extends fs' ∧ ChangesUnder fs fs' (dir ++ [name]) ∧
      ∀ below l, NodeAt node children below l → l ≠ .special →
        fs'.lstat (dst ++ [name] ++ below) = .found (.leaf l) := by
  have hnone : fs.lstat (dst ++ [name]) = .notExist := by rw [lstat_snoc hwalk, hfree]
  simp only [migrateEntry, hnone] at h
  by_cases hspecial : node = .leaf .special
  · subst hspecial
    obtain rfl := Option.some.inj h
    refine ⟨Extends.refl fs, fun place hchange => absurd rfl hchange, ?_⟩
    rintro below l ⟨-, rfl⟩ hl
    exact absurd rfl hl
  · obtain ⟨fs₁, dir₁, hmkdir, hwalk₁, -, hextends, hchanges, hplaced⟩ :=
      copyMigratedEntry_spec hspecial hplain hcopies h
    rw [mkdirAll_of_walk hwalk, Option.some.injEq] at hmkdir
    subst hmkdir
    rw [hwalk, Found.at.injEq] at hwalk₁
    subst hwalk₁
    exact ⟨hextends, hchanges, hplaced⟩

/-- The first entry of a listing is copied, and then the others. -/
theorem migrateEntry_fresh_rest [DecidableEq β] {digest : Digest α β} {node : Node α}
    (children : Entries α) {rest : Entries α} {merge restMerge : Merge α}
    {dst dstRoot conflictRoot : List Name}
    {name : Name} {fs fs' : Files α} {dir : Place} (hplain : ∀ e ∈ dst ++ [name], Plain e)
    (hcopies : node = .dir → Copies children merge (dst ++ [name]))
    (hrest : Copies rest restMerge dst) (hname : name ∉ rest.names) (hwalk : fs.walk dst = .at dir)
    (hfree : ∀ n ∈ name :: rest.names, fs.node (dir ++ [n]) = none)
    (h : (migrateEntry digest node merge (dst ++ [name]) dstRoot conflictRoot fs).bind
      (restMerge dst) = some fs') :
    fs.Extends fs' ∧
      (∀ place, fs'.node place ≠ fs.node place → ∃ n ∈ name :: rest.names, dir ++ [n] <+: place) ∧
      (∀ below l, NodeAt node children below l → l ≠ .special →
        fs'.lstat (dst ++ name :: below) = .found (.leaf l)) ∧
      ∀ path l, rest.At path l → l ≠ .special → fs'.lstat (dst ++ path) = .found (.leaf l) := by
  obtain ⟨fs₁, hentry, hmerge⟩ := Option.bind_eq_some_iff.mp h
  obtain ⟨hextends, hchanges, hplaced⟩ :=
    migrateEntry_fresh hplain hcopies hwalk (hfree name List.mem_cons_self) hentry
  have hstill : ∀ n ∈ rest.names, fs₁.node (dir ++ [n]) = none := by
    intro n hn
    by_contra hne
    have hchange : fs₁.node (dir ++ [n]) ≠ fs.node (dir ++ [n]) := by
      rw [hfree n (List.mem_cons_of_mem name hn)]
      exact hne
    have hsame := (List.prefix_append_right_inj dir).mp (hchanges _ hchange)
    rw [List.cons_prefix_cons] at hsame
    exact hname (hsame.1 ▸ hn)
  obtain ⟨hmore, hothers, hrestPlaced⟩ :=
    hrest fs₁ fs' dir (walk_mono hextends hwalk) hstill hmerge
  refine ⟨hextends.trans hmore, ?_, ?_, hrestPlaced⟩
  · intro place hchange
    by_cases hsame : fs'.node place = fs₁.node place
    · rw [hsame] at hchange
      exact ⟨name, List.mem_cons_self, hchanges place hchange⟩
    · obtain ⟨n, hn, hpre⟩ := hothers place hsame
      exact ⟨n, List.mem_cons_of_mem name hn, hpre⟩
  · intro below l hat hl
    have hfound := hplaced below l hat hl
    rw [List.append_assoc, List.singleton_append] at hfound
    exact lstat_below_mono hmore (by simp) hfound

theorem mergeDirContents_copies [DecidableEq β] {digest : Digest α β}
    {dstRoot conflictRoot : List Name} {children : Entries α} (hwf : children.WellFormed)
    {dst : List Name} (hplain : ∀ e ∈ dst, Plain e) :
    Copies children (mergeDirContents digest dstRoot conflictRoot children) dst := by
  induction children generalizing dst with
  | nil =>
      intro fs fs' dir hwalk hfree h
      obtain rfl := Option.some.inj h
      exact ⟨Extends.refl fs, fun place hchange => absurd rfl hchange, fun path l hat => hat.elim⟩
  | leaf name node rest ih =>
      obtain ⟨hname, hnew, hwf⟩ := hwf
      intro fs fs' dir hwalk hfree h
      have hpath : ∀ e ∈ dst ++ [name], Plain e := by
        simpa [or_imp, forall_and] using And.intro hplain hname
      obtain ⟨hextends, hchanges, hplaced, hrest⟩ := migrateEntry_fresh_rest .nil hpath
        (fun hdir => by cases hdir) (ih hwf hplain) hnew hwalk hfree h
      refine ⟨hextends, hchanges, ?_⟩
      rintro path l (⟨rfl, rfl⟩ | hat) hl
      · exact hplaced [] l ⟨rfl, rfl⟩ hl
      · exact hrest path l hat hl
  | dir name children rest ihc ih =>
      obtain ⟨hname, hnew, hwfc, hwf⟩ := hwf
      intro fs fs' dir hwalk hfree h
      have hpath : ∀ e ∈ dst ++ [name], Plain e := by
        simpa [or_imp, forall_and] using And.intro hplain hname
      obtain ⟨hextends, hchanges, hplaced, hrest⟩ := migrateEntry_fresh_rest children
        hpath (fun _ => ihc hwfc hpath) (ih hwf hplain) hnew hwalk hfree h
      refine ⟨hextends, hchanges, ?_⟩
      rintro path l (⟨below, rfl, hat⟩ | hat) hl
      · exact hplaced below l hat hl
      · exact hrest path l hat hl

/-- An entry is found in the tree it was for, or beside it under a longer name. -/
def Kept (fs : Files α) (dstRoot conflictRoot path : List Name) (l : Leaf α) : Prop :=
  fs.lstat (dstRoot ++ path) = .found (.leaf l) ∨
    ∃ extended, Extended path extended ∧ fs.lstat (conflictRoot ++ extended) = .found (.leaf l)

/-- Where something changes: in the directory, in new directories, and at names
that were free and are not the name of the directory for conflicts. -/
def Frame (fs fs' : Files α) (dir : Place) : Prop :=
  ∀ place, fs'.node place ≠ fs.node place → dir <+: place ∨ fs'.node place = some .dir ∨
    ∃ parent name, fs.node (parent ++ [name]) = none ∧ name.getLast? ≠ some 's' ∧
      parent ++ [name] <+: place

/-- What the merge of a source directory into a destination does. -/
def Merges (children : Entries α) (merge : Merge α) (dstRoot conflictRoot rel : List Name) : Prop :=
  ∀ fs fs', merge (dstRoot ++ rel) fs = some fs' → fs.Extends fs' ∧
    (∀ path l, children.At path l → l ≠ .special → Kept fs' dstRoot conflictRoot (rel ++ path) l) ∧
    ∀ dir, fs.walk (dstRoot ++ rel) = .at dir → Frame fs fs' dir ∧
      (dstRoot = conflictRoot → ChangesUnder fs fs' dir)

theorem ChangesUnder.frame {fs fs' : Files α} {dir : Place} (h : ChangesUnder fs fs' dir) :
    Frame fs fs' dir := fun place hchange => .inl (h place hchange)

theorem ChangesUnder.trans {fs fs₁ fs' : Files α} {dir : Place} (h : ChangesUnder fs fs₁ dir)
    (h' : ChangesUnder fs₁ fs' dir) : ChangesUnder fs fs' dir := by
  intro place hchange
  by_cases hsame : fs'.node place = fs₁.node place
  · exact h place (hsame ▸ hchange)
  · exact h' place hsame

theorem ChangesUnder.mono {fs fs' : Files α} {dir below : Place} (h : ChangesUnder fs fs' below)
    (hpre : dir <+: below) : ChangesUnder fs fs' dir :=
  fun place hchange => hpre.trans (h place hchange)

theorem Frame.trans {fs fs₁ fs' : Files α} {dir : Place} (hextends : fs.Extends fs₁)
    (hmore : fs₁.Extends fs') (h : Frame fs fs₁ dir) (h' : Frame fs₁ fs' dir) :
    Frame fs fs' dir := by
  intro place hchange
  by_cases hsame : fs₁.node place = fs.node place
  · rw [← hsame] at hchange
    obtain hunder | hdir | ⟨parent, name, hfree, hlast, hpre⟩ := h' place hchange
    · exact .inl hunder
    · exact .inr (.inl hdir)
    · exact .inr (.inr ⟨parent, name, hextends.free hfree, hlast, hpre⟩)
  · obtain hunder | hdir | hnew := h place hsame
    · exact .inl hunder
    · exact .inr (.inl (hmore place _ hdir))
    · exact .inr (.inr hnew)

theorem Frame.mono {fs fs' : Files α} {dir below : Place} (h : Frame fs fs' below)
    (hpre : dir <+: below) : Frame fs fs' dir :=
  fun place hchange => (h place hchange).imp_left fun hunder => hpre.trans hunder

theorem Kept.mono {fs fs' : Files α} (h : fs.Extends fs') {dstRoot conflictRoot path : List Name}
    {l : Leaf α} (hne : path ≠ []) (hkept : Kept fs dstRoot conflictRoot path l) :
    Kept fs' dstRoot conflictRoot path l := by
  obtain hfound | ⟨extended, hextended, hfound⟩ := hkept
  · exact .inl (lstat_below_mono h hne hfound)
  · refine .inr ⟨extended, hextended, lstat_below_mono h ?_ hfound⟩
    rintro rfl
    obtain hself | ⟨before, name, below, suffix, -, hnil, -⟩ := hextended
    · exact hne hself.symm
    · simp at hnil

theorem migratedSuffix_last {suffix : List Char} (h : MigratedSuffix suffix) (name : Name) :
    (name ++ suffix).getLast? ≠ some 's' ∧ '/' ∉ suffix ∧ 3 ≤ suffix.length := by
  obtain rfl | ⟨n, -, rfl⟩ := h
  · refine ⟨?_, by decide, by decide⟩
    rw [List.getLast?_append_of_ne_nil _ (by decide)]
    decide
  · have hne : Nat.toDigits 10 n ≠ [] := Nat.toDigits_ne_nil
    have hdigit : ∀ c ∈ Nat.toDigits 10 n, c.isDigit = true :=
      fun c hc => GoStrings.isDigit_of_mem_toDigits hc
    refine ⟨?_, ?_, ?_⟩
    · rw [List.getLast?_append_of_ne_nil _ (by simp), List.getLast?_append_of_ne_nil _ (by simp),
        List.getLast?_cons, List.getLast?_eq_some_getLast hne, Option.getD_some]
      intro hs
      have hlast := hdigit _ (List.getLast_mem hne)
      rw [Option.some.inj hs] at hlast
      exact absurd hlast (by decide)
    · rw [List.mem_append, List.mem_cons, not_or, not_or]
      refine ⟨by decide, by decide, fun hslash => ?_⟩
      exact absurd (hdigit _ hslash) (by decide)
    · have hlength : ".migrated".toList.length = 9 := by decide
      rw [List.length_append, hlength]
      omega

theorem plain_migrated {suffix : List Char} (h : MigratedSuffix suffix) {name : Name}
    (hname : Plain name) : Plain (name ++ suffix) := by
  obtain ⟨-, hslash, hlength⟩ := migratedSuffix_last h name
  have hlong : 3 ≤ (name ++ suffix).length := by
    rw [List.length_append]
    omega
  refine ⟨?_, ?_, ?_, ?_⟩
  · exact fun heq => by simp [heq] at hlong
  · exact fun heq => by simp [heq] at hlong
  · exact fun heq => by simp [heq] at hlong
  · rw [List.mem_append, not_or]
    exact ⟨hname.2.2.2, hslash⟩

@[simp] theorem relative_append (base path : List Name) : relative base (base ++ path) = path := by
  induction base with
  | nil => cases path <;> rfl
  | cons b base ih => rw [List.cons_append, relative, if_pos rfl, ih]

theorem joinElements_plain {dir path : List Name} (h : ∀ e ∈ path, Plain e) :
    joinElements dir path = dir ++ path := by
  rw [joinElements, foldl_cleanElement_of_plain h]
  simp

@[simp] theorem withSuffix_concat (path : List Name) (name : Name) (suffix : List Char) :
    withSuffix (path ++ [name]) suffix = path ++ [name ++ suffix] := by
  simp [withSuffix]

/-- The names that are tried for an entry that conflicts. -/
theorem candidate_eq (dstRoot conflictRoot : List Name) {rel : List Name} {name : Name}
    (hplain : ∀ e ∈ rel ++ [name], Plain e) (attempt : ℕ) : ∃ suffix, MigratedSuffix suffix ∧
      candidate (withSuffix (joinElements conflictRoot (relative dstRoot (dstRoot ++ rel ++ [name])))
        ".migrated".toList) attempt = conflictRoot ++ rel ++ [name ++ suffix] := by
  have hbase : withSuffix (joinElements conflictRoot (relative dstRoot (dstRoot ++ rel ++ [name])))
      ".migrated".toList = conflictRoot ++ rel ++ [name ++ ".migrated".toList] := by
    rw [List.append_assoc, relative_append, joinElements_plain hplain, ← List.append_assoc,
      withSuffix_concat]
  rw [hbase, candidate]
  split_ifs with hzero
  · exact ⟨_, .inl rfl, rfl⟩
  · refine ⟨_, .inr ⟨attempt, by omega, rfl⟩, ?_⟩
    rw [withSuffix_concat, List.append_assoc name]

theorem candidate_injective {path : List Name} {name : Name} {k k' : ℕ}
    (h : candidate (path ++ [name]) k = candidate (path ++ [name]) k') : k = k' := by
  have hdigits : ∀ {m n : ℕ}, Nat.toDigits 10 m = Nat.toDigits 10 n → m = n := by
    intro m n heq
    rw [← Nat.ofDigitChars_ten_toDigits (n := m), heq, Nat.ofDigitChars_ten_toDigits]
  rw [candidate, candidate] at h
  split_ifs at h with hk hk'
  · omega
  · rw [withSuffix_concat] at h
    simp at h
  · rw [withSuffix_concat] at h
    simp at h
  · rw [withSuffix_concat, withSuffix_concat] at h
    simp only [List.append_cancel_left_eq, List.cons.injEq, and_true, true_and] at h
    exact hdigits h

/-- Among as many names as there are entries and one more, one is not taken. -/
theorem exists_untaken [DecidableEq β] (digest : Digest α β) (src : Node α) (fs : Files α)
    (path : List Name) (name : Name) : ∃ attempt ∈ List.range (fs.entries.length + 1),
      taken digest src (fs.lstat (candidate (path ++ [name]) attempt)) = false := by
  by_contra hall
  have htaken : ∀ k ∈ List.range (fs.entries.length + 1), ∃ place,
      place ∈ fs.entries.map Prod.fst ∧ ∃ dir last, fs.walk path = .at dir ∧
        candidate (path ++ [name]) k = path ++ [last] ∧ place = dir ++ [last] := by
    intro k hk
    have hk' : taken digest src (fs.lstat (candidate (path ++ [name]) k)) = true := by
      by_contra hfree
      exact hall ⟨k, hk, by simpa using hfree⟩
    obtain ⟨last, hlast⟩ : ∃ last, candidate (path ++ [name]) k = path ++ [last] := by
      rw [candidate]
      split_ifs
      · exact ⟨name, rfl⟩
      · exact ⟨_, withSuffix_concat _ _ _⟩
    cases hlstat : fs.lstat (path ++ [last]) with
    | found node =>
        obtain ⟨dir, hdir, hnode⟩ := walk_of_lstat hlstat
        refine ⟨dir ++ [last], ?_, dir, last, hdir, hlast, rfl⟩
        rw [Files.node, nodeOf, if_neg (by simp)] at hnode
        obtain ⟨before, after, hentries, -⟩ := List.lookup_eq_some_iff.mp hnode
        rw [hentries]
        simp
    | notExist => simp [hlast, hlstat, taken] at hk'
    | failed => simp [hlast, hlstat, taken] at hk'
  choose! place hplace hname using htaken
  have hnodup : ((List.range (fs.entries.length + 1)).map place).Nodup := by
    refine List.Nodup.map_on ?_ List.nodup_range
    intro k hk k' hk' heq
    obtain ⟨dir, last, hdir, hlast, hp⟩ := hname k hk
    obtain ⟨dir', last', hdir', hlast', hp'⟩ := hname k' hk'
    rw [hdir, Found.at.injEq] at hdir'
    rw [hp, hp', hdir', List.append_cancel_left_eq] at heq
    exact candidate_injective (by rw [hlast, hlast', heq])
  have hsubset : (List.range (fs.entries.length + 1)).map place ⊆ fs.entries.map Prod.fst := by
    intro p hp
    obtain ⟨k, hk, rfl⟩ := List.mem_map.mp hp
    exact hplace k hk
  have hlength := (hnodup.subperm hsubset).length_le
  rw [List.length_map, List.length_range, List.length_map] at hlength
  omega

/-- Entries that compare as equal are equal files or links. -/
theorem eq_of_migratedEntriesEqual [DecidableEq β] {digest : Digest α β}
    (hdigest : ∀ a b, digest.size a = digest.size b →
      digest.fileChecksum a = digest.fileChecksum b → a = b)
    {src node : Node α} (h : migratedEntriesEqual digest src node = true) :
    src = node ∧ ∃ l, src = .leaf l := by
  cases src with
  | dir => cases h
  | leaf l =>
      cases node with
      | dir => cases l <;> cases h
      | leaf m =>
          cases l with
          | special => cases m <;> cases h
          | file a =>
              cases m with
              | file b =>
                  simp only [migratedEntriesEqual, decide_eq_true_eq] at h
                  exact ⟨by rw [hdigest a b h.1 h.2], _, rfl⟩
              | symlink t => cases h
              | special => cases h
          | symlink s =>
              cases m with
              | symlink t =>
                  simp only [migratedEntriesEqual, decide_eq_true_eq] at h
                  exact ⟨by rw [h], _, rfl⟩
              | file b => cases h
              | special => cases h

section Merging

variable [DecidableEq β] {digest : Digest α β} {dstRoot conflictRoot rel : List Name} {name : Name}
  {node : Node α} {children : Entries α} {merge : Merge α} {fs fs' : Files α}

theorem extended_at {below : List Name} {suffix : List Char} (h : MigratedSuffix suffix) :
    Extended (rel ++ name :: below) (rel ++ (name ++ suffix) :: below) :=
  .inr ⟨rel, name, below, suffix, rfl, rfl, h⟩

/-- What conflicts is copied beside the tree, or stands there already. -/
theorem preserveMigrationConflict_spec
    (hdigest : ∀ a b, digest.size a = digest.size b →
      digest.fileChecksum a = digest.fileChecksum b → a = b)
    (hconflict : ∀ e ∈ conflictRoot, Plain e) (hplain : ∀ e ∈ rel ++ [name], Plain e)
    (hcopies : node = .dir → ∀ dst, (∀ e ∈ dst, Plain e) → Copies children merge dst)
    (h : preserveMigrationConflict digest node merge (dstRoot ++ rel ++ [name]) dstRoot conflictRoot
      fs = some fs') :
    fs.Extends fs' ∧
      (∀ below l, NodeAt node children below l → l ≠ .special →
        Kept fs' dstRoot conflictRoot (rel ++ name :: below) l) ∧
      ∀ dir, Frame fs fs' dir ∧
        (fs.walk (conflictRoot ++ rel) = .at dir → ChangesUnder fs fs' dir) := by
  simp only [preserveMigrationConflict] at h
  split at h
  · cases h
  · next attempt hfind =>
    have huntaken := List.find?_some hfind
    obtain ⟨suffix, hsuffix, hname⟩ := candidate_eq dstRoot conflictRoot hplain attempt
    rw [hname] at h huntaken
    have hkeptPlain : ∀ e ∈ conflictRoot ++ rel ++ [name ++ suffix], Plain e := by
      intro e he
      rcases List.mem_append.mp he with he | he
      · rcases List.mem_append.mp he with he | he
        · exact hconflict e he
        · exact hplain e (List.mem_append_left _ he)
      · rw [List.mem_singleton.mp he]
        exact plain_migrated hsuffix (hplain name (by simp))
    cases hlstat : fs.lstat (conflictRoot ++ rel ++ [name ++ suffix]) with
    | failed =>
        simp only [hlstat] at h
        cases h
    | notExist =>
        simp only [hlstat] at h
        by_cases hspecial : node = .leaf .special
        · subst hspecial
          obtain rfl := Option.some.inj h
          refine ⟨Extends.refl fs, ?_, fun dir =>
            ⟨fun place hchange => absurd rfl hchange, fun _ place hchange => absurd rfl hchange⟩⟩
          rintro below l ⟨-, rfl⟩ hl
          exact absurd rfl hl
        · obtain ⟨fs₁, parent, hmkdir, hwalk, hfree, hmore, hchanges, hplaced⟩ :=
            copyMigratedEntry_spec hspecial hkeptPlain (fun hdir => hcopies hdir _ hkeptPlain) h
          have hextends := (mkdirAll_spec
            (fun e he => hkeptPlain e (List.mem_append_left _ he)) hmkdir).1
          refine ⟨hextends.trans hmore, ?_, fun dir => ⟨?_, ?_⟩⟩
          · intro below l hat hl
            refine .inr ⟨_, extended_at hsuffix, ?_⟩
            have hfound := hplaced below l hat hl
            rw [List.append_assoc, List.append_assoc, List.singleton_append] at hfound
            exact hfound
          · intro place hchange
            by_cases hsame : fs'.node place = fs₁.node place
            · rw [hsame] at hchange
              have hdir := mkdirAll_new hmkdir place hchange
              exact .inr (.inl (hsame.trans hdir))
            · exact .inr (.inr ⟨parent, _, hextends.free hfree, (migratedSuffix_last hsuffix name).1,
                hchanges place hsame⟩)
          · intro hroot
            rw [mkdirAll_of_walk hroot, Option.some.injEq] at hmkdir
            subst hmkdir
            rw [hroot, Found.at.injEq] at hwalk
            subst hwalk
            exact hchanges.mono (List.prefix_append _ _)
    | found found =>
        simp only [hlstat, Option.some.injEq] at h
        subst h
        have hequal : migratedEntriesEqual digest node found = true := by
          simp only [hlstat, taken] at huntaken
          simpa using huntaken
        obtain ⟨rfl, leaf, rfl⟩ := eq_of_migratedEntriesEqual hdigest hequal
        refine ⟨Extends.refl fs, ?_, fun dir =>
          ⟨fun place hchange => absurd rfl hchange, fun _ place hchange => absurd rfl hchange⟩⟩
        rintro below l ⟨rfl, rfl⟩ -
        refine .inr ⟨_, extended_at hsuffix, ?_⟩
        rw [← List.append_assoc]
        exact hlstat

/-- One entry of a directory that is merged. -/
theorem migrateEntry_merges
    (hdigest : ∀ a b, digest.size a = digest.size b →
      digest.fileChecksum a = digest.fileChecksum b → a = b)
    (hroot : ∀ e ∈ dstRoot, Plain e) (hconflict : ∀ e ∈ conflictRoot, Plain e)
    (hplain : ∀ e ∈ rel ++ [name], Plain e)
    (hcopies : node = .dir → ∀ dst, (∀ e ∈ dst, Plain e) → Copies children merge dst)
    (hmerges : node = .dir → Merges children merge dstRoot conflictRoot (rel ++ [name]))
    (h : migrateEntry digest node merge (dstRoot ++ rel ++ [name]) dstRoot conflictRoot fs =
      some fs') :
    fs.Extends fs' ∧
      (∀ below l, NodeAt node children below l → l ≠ .special →
        Kept fs' dstRoot conflictRoot (rel ++ name :: below) l) ∧
      ∀ dir, fs.walk (dstRoot ++ rel) = .at dir → Frame fs fs' dir ∧
        (dstRoot = conflictRoot → ChangesUnder fs fs' dir) := by
  have hpath : ∀ e ∈ dstRoot ++ rel ++ [name], Plain e := by
    intro e he
    rw [List.append_assoc] at he
    exact (List.mem_append.mp he).elim (hroot e) (hplain e)
  cases hlstat : fs.lstat (dstRoot ++ rel ++ [name]) with
  | failed =>
      simp only [migrateEntry, hlstat] at h
      cases h
  | notExist =>
      simp only [migrateEntry, hlstat] at h
      by_cases hspecial : node = .leaf .special
      · subst hspecial
        obtain rfl := Option.some.inj h
        refine ⟨Extends.refl fs, ?_, fun dir _ =>
          ⟨fun place hchange => absurd rfl hchange, fun _ place hchange => absurd rfl hchange⟩⟩
        rintro below l ⟨-, rfl⟩ hl
        exact absurd rfl hl
      · obtain ⟨fs₁, parent, hmkdir, hwalk, -, hmore, hchanges, hplaced⟩ :=
          copyMigratedEntry_spec hspecial hpath (fun hdir => hcopies hdir _ hpath) h
        have hextends := (mkdirAll_spec
          (fun e he => hpath e (List.mem_append_left _ he)) hmkdir).1
        refine ⟨hextends.trans hmore, ?_, fun dir hdir => ?_⟩
        · intro below l hat hl
          have hfound := hplaced below l hat hl
          rw [List.append_assoc, List.append_assoc, List.singleton_append] at hfound
          exact .inl hfound
        · rw [mkdirAll_of_walk hdir, Option.some.injEq] at hmkdir
          subst hmkdir
          rw [hdir, Found.at.injEq] at hwalk
          subst hwalk
          have hunder := hchanges.mono (List.prefix_append dir [name])
          exact ⟨hunder.frame, fun _ => hunder⟩
  | found found =>
      obtain ⟨dir, hdir, hfound⟩ := walk_of_lstat hlstat
      by_cases hdirs : node = .dir ∧ found = .dir
      · obtain ⟨rfl, rfl⟩ := hdirs
        simp only [migrateEntry, hlstat] at h
        rw [List.append_assoc] at h
        obtain ⟨hextends, hkept, hframe⟩ := hmerges rfl fs fs' h
        refine ⟨hextends, ?_, fun place hplace => ?_⟩
        · intro below l hat hl
          have hbelow := hkept below l hat hl
          rw [List.append_assoc, List.singleton_append] at hbelow
          exact hbelow
        · rw [hdir, Found.at.injEq] at hplace
          subst hplace
          have hinto := walk_snoc (hplain name (by simp)) hdir hfound
          rw [List.append_assoc] at hinto
          obtain ⟨hframe, hunder⟩ := hframe _ hinto
          exact ⟨hframe.mono (List.prefix_append _ _),
            fun hsame => (hunder hsame).mono (List.prefix_append _ _)⟩
      · have hcompare : (if migratedEntriesEqual digest node found then some fs
            else preserveMigrationConflict digest node merge (dstRoot ++ rel ++ [name]) dstRoot
              conflictRoot fs) = some fs' := by
          simp only [migrateEntry, hlstat] at h
          split at h
          · exact absurd ⟨rfl, rfl⟩ hdirs
          · exact h
        split_ifs at hcompare with hequal
        · obtain rfl := Option.some.inj hcompare
          obtain ⟨rfl, leaf, rfl⟩ := eq_of_migratedEntriesEqual hdigest hequal
          refine ⟨Extends.refl fs, ?_, fun dir _ =>
            ⟨fun place hchange => absurd rfl hchange, fun _ place hchange => absurd rfl hchange⟩⟩
          rintro below l ⟨rfl, rfl⟩ -
          rw [Kept, ← List.append_assoc]
          exact .inl hlstat
        · obtain ⟨hextends, hkept, hframe⟩ :=
            preserveMigrationConflict_spec hdigest hconflict hplain hcopies hcompare
          refine ⟨hextends, hkept, fun place hplace => ⟨(hframe place).1, fun hsame => ?_⟩⟩
          exact (hframe place).2 (hsame ▸ hplace)

/-- The first entry of a directory is merged, and then the others. -/
theorem migrateEntry_merges_rest (children : Entries α) {rest : Entries α} {restMerge : Merge α}
    (hdigest : ∀ a b, digest.size a = digest.size b →
      digest.fileChecksum a = digest.fileChecksum b → a = b)
    (hroot : ∀ e ∈ dstRoot, Plain e) (hconflict : ∀ e ∈ conflictRoot, Plain e)
    (hplain : ∀ e ∈ rel ++ [name], Plain e)
    (hcopies : node = .dir → ∀ dst, (∀ e ∈ dst, Plain e) → Copies children merge dst)
    (hmerges : node = .dir → Merges children merge dstRoot conflictRoot (rel ++ [name]))
    (hrest : Merges rest restMerge dstRoot conflictRoot rel)
    (h : (migrateEntry digest node merge (dstRoot ++ rel ++ [name]) dstRoot conflictRoot fs).bind
      (restMerge (dstRoot ++ rel)) = some fs') :
    fs.Extends fs' ∧
      (∀ below l, NodeAt node children below l → l ≠ .special →
        Kept fs' dstRoot conflictRoot (rel ++ name :: below) l) ∧
      (∀ path l, rest.At path l → l ≠ .special → Kept fs' dstRoot conflictRoot (rel ++ path) l) ∧
      ∀ dir, fs.walk (dstRoot ++ rel) = .at dir → Frame fs fs' dir ∧
        (dstRoot = conflictRoot → ChangesUnder fs fs' dir) := by
  obtain ⟨fs₁, hentry, hmerge⟩ := Option.bind_eq_some_iff.mp h
  obtain ⟨hextends, hkept, hframe⟩ :=
    migrateEntry_merges hdigest hroot hconflict hplain hcopies hmerges hentry
  obtain ⟨hmore, hothers, hrestFrame⟩ := hrest fs₁ fs' hmerge
  refine ⟨hextends.trans hmore, fun below l hat hl => ?_, hothers, fun dir hdir => ?_⟩
  · exact (hkept below l hat hl).mono hmore (by simp)
  · obtain ⟨hfirst, hfirstUnder⟩ := hframe dir hdir
    obtain ⟨hthen, hthenUnder⟩ := hrestFrame dir (walk_mono hextends hdir)
    exact ⟨hfirst.trans hextends hmore hthen,
      fun hsame => (hfirstUnder hsame).trans (hthenUnder hsame)⟩

end Merging

theorem mergeDirContents_merges [DecidableEq β] {digest : Digest α β}
    {dstRoot conflictRoot : List Name} {children : Entries α}
    (hdigest : ∀ a b, digest.size a = digest.size b →
      digest.fileChecksum a = digest.fileChecksum b → a = b)
    (hroot : ∀ e ∈ dstRoot, Plain e) (hconflict : ∀ e ∈ conflictRoot, Plain e)
    (hwf : children.WellFormed) {rel : List Name} (hplain : ∀ e ∈ rel, Plain e) :
    Merges children (mergeDirContents digest dstRoot conflictRoot children) dstRoot conflictRoot
      rel := by
  induction children generalizing rel with
  | nil =>
      intro fs fs' h
      obtain rfl := Option.some.inj h
      exact ⟨Extends.refl fs, fun path l hat => hat.elim, fun dir _ =>
        ⟨fun place hchange => absurd rfl hchange, fun _ place hchange => absurd rfl hchange⟩⟩
  | leaf name node rest ih =>
      obtain ⟨hname, -, hwf⟩ := hwf
      intro fs fs' h
      have hpath : ∀ e ∈ rel ++ [name], Plain e := by
        simpa [or_imp, forall_and] using And.intro hplain hname
      obtain ⟨hextends, hkept, hrest, hframe⟩ := migrateEntry_merges_rest .nil hdigest
        hroot hconflict hpath (fun hdir => by cases hdir) (fun hdir => by cases hdir)
        (ih hwf hplain) h
      refine ⟨hextends, ?_, hframe⟩
      rintro path l (⟨rfl, rfl⟩ | hat) hl
      · exact hkept [] l ⟨rfl, rfl⟩ hl
      · exact hrest path l hat hl
  | dir name children rest ihc ih =>
      obtain ⟨hname, -, hwfc, hwf⟩ := hwf
      intro fs fs' h
      have hpath : ∀ e ∈ rel ++ [name], Plain e := by
        simpa [or_imp, forall_and] using And.intro hplain hname
      obtain ⟨hextends, hkept, hrest, hframe⟩ := migrateEntry_merges_rest children hdigest
        hroot hconflict hpath (fun _ dst hdst => mergeDirContents_copies hwfc hdst)
        (fun _ => ihc hwfc hpath) (ih hwf hplain) h
      refine ⟨hextends, ?_, hframe⟩
      rintro path l (⟨below, rfl, hat⟩ | hat) hl
      · exact hkept below l hat hl
      · exact hrest path l hat hl

/-- A file of the source is found in the target, unless it is below `conf.d`, or
among the conflicts. -/
def Preserved (fs : Files α) (target path : List Name) (l : Leaf α) : Prop :=
  (path.head? ≠ some confD ∧ fs.lstat (target ++ path) = .found (.leaf l)) ∨
    ∃ extended, Extended path extended ∧
      fs.lstat (conflictRootOf target ++ extended) = .found (.leaf l)

theorem Preserved.mono {fs fs' : Files α} (h : fs.Extends fs') {target path : List Name}
    {l : Leaf α} (hne : path ≠ []) (hpreserved : Preserved fs target path l) :
    Preserved fs' target path l := by
  obtain ⟨hhead, hfound⟩ | hkept := hpreserved
  · exact .inl ⟨hhead, lstat_below_mono h hne hfound⟩
  · have hmoved : Kept fs (conflictRootOf target) (conflictRootOf target) path l := .inr hkept
    obtain hfound | hkept := hmoved.mono h hne
    · exact .inr ⟨path, .inl rfl, hfound⟩
    · exact .inr hkept

theorem plain_conflictRoot {target : List Name} (hne : target ≠ [])
    (hplain : ∀ e ∈ target, Plain e) : ∀ e ∈ conflictRootOf target, Plain e := by
  obtain ⟨path, name, rfl⟩ := List.eq_nil_or_concat target |>.resolve_left hne
  rw [List.concat_eq_append] at hplain ⊢
  rw [conflictRootOf, withSuffix_concat]
  have hlength : ".migrated-conflicts".toList.length = 19 := by decide
  have hlong : 19 ≤ (name ++ ".migrated-conflicts".toList).length := by
    rw [List.length_append, hlength]
    omega
  have hlast : Plain (name ++ ".migrated-conflicts".toList) := by
    refine ⟨?_, ?_, ?_, ?_⟩
    · intro heq
      exact absurd (heq ▸ hlong) (by decide)
    · intro heq
      exact absurd (heq ▸ hlong) (by decide)
    · intro heq
      exact absurd (heq ▸ hlong) (by decide)
    · rw [List.mem_append, not_or]
      exact ⟨(hplain name (by simp)).2.2.2, by decide⟩
  intro e he
  rcases List.mem_append.mp he with he | he
  · exact hplain e (List.mem_append_left _ he)
  · rw [List.mem_singleton.mp he]
    exact hlast

section TopEntries

variable [DecidableEq β] {digest : Digest α β} {target : List Name} {fs fs' : Files α}

/-- One round of the loop over the entries of the directory. -/
theorem migrateTopEntry_spec
    (hdigest : ∀ a b, digest.size a = digest.size b →
      digest.fileChecksum a = digest.fileChecksum b → a = b)
    (hne : target ≠ []) (hplain : ∀ e ∈ target, Plain e) {entry : TopEntry α}
    (hname : Plain entry.name) (hwf : entry.node = .dir → entry.children.WellFormed)
    (h : migrateTopEntry digest target fs entry = some fs') :
    fs.Extends fs' ∧
      (∀ below l, NodeAt entry.node entry.children below l → l ≠ .special →
        Preserved fs' target (entry.name :: below) l) ∧
      (entry.name ≠ confD → ∀ dir, fs.walk target = .at dir → Frame fs fs' dir) ∧
      (entry.name = confD → ∀ dir, fs.walk (conflictRootOf target) = .at dir →
        ChangesUnder fs fs' dir) := by
  have hconflict := plain_conflictRoot hne hplain
  have hroot : ∀ e ∈ (if entry.name = confD then conflictRootOf target else target), Plain e := by
    split_ifs
    · exact hconflict
    · exact hplain
  rw [migrateTopEntry] at h
  generalize hdst : (if entry.name = confD then conflictRootOf target else target) = dstRoot
    at h hroot
  have hpath : ∀ e ∈ ([] : List Name) ++ [entry.name], Plain e := by simpa using hname
  have hentry : migrateEntry digest entry.node
      (mergeDirContents digest dstRoot (conflictRootOf target) entry.children)
      (dstRoot ++ [] ++ [entry.name]) dstRoot (conflictRootOf target) fs = some fs' := by
    rw [List.append_nil]
    exact h
  obtain ⟨hextends, hkept, hframe⟩ := migrateEntry_merges hdigest hroot hconflict hpath
    (fun hdir dst hplainDst => mergeDirContents_copies (hwf hdir) hplainDst)
    (fun hdir => mergeDirContents_merges hdigest hroot hconflict (hwf hdir) hpath)
    hentry
  rw [List.append_nil] at hframe
  refine ⟨hextends, fun below l hat hl => ?_, fun hother dir hdir => ?_, fun hconf dir hdir => ?_⟩
  · have hbelow := hkept below l hat hl
    rw [List.nil_append] at hbelow
    by_cases hconf : entry.name = confD
    · rw [if_pos hconf] at hdst
      obtain hfound | hmoved := hbelow
      · rw [← hdst] at hfound
        exact .inr ⟨_, .inl rfl, hfound⟩
      · exact .inr hmoved
    · rw [if_neg hconf] at hdst
      obtain hfound | hmoved := hbelow
      · rw [← hdst] at hfound
        exact .inl ⟨by simpa using hconf, hfound⟩
      · exact .inr hmoved
  · rw [if_neg hother] at hdst
    exact (hframe dir (hdst ▸ hdir)).1
  · rw [if_pos hconf] at hdst
    exact (hframe dir (hdst ▸ hdir)).2 hdst.symm

/-- The loop over the entries of the directory. -/
theorem migrateTop_spec
    (hdigest : ∀ a b, digest.size a = digest.size b →
      digest.fileChecksum a = digest.fileChecksum b → a = b)
    (hne : target ≠ []) (hplain : ∀ e ∈ target, Plain e) {entries : Entries α}
    (hwf : entries.WellFormed)
    (h : entries.top.foldlM (migrateTopEntry digest target) fs = some fs') :
    fs.Extends fs' ∧
      ∀ path l, entries.At path l → l ≠ .special → Preserved fs' target path l := by
  induction entries generalizing fs with
  | nil =>
      obtain rfl := Option.some.inj h
      exact ⟨Extends.refl fs, fun path l hat => hat.elim⟩
  | leaf name node rest ih =>
      obtain ⟨hname, -, hwf⟩ := hwf
      obtain ⟨fs₁, hentry, hrest⟩ := Option.bind_eq_some_iff.mp h
      obtain ⟨hextends, hpreserved, -⟩ :=
        migrateTopEntry_spec hdigest hne hplain hname (fun hdir => by cases hdir) hentry
      obtain ⟨hmore, hothers⟩ := ih hwf hrest
      refine ⟨hextends.trans hmore, ?_⟩
      rintro path l (⟨rfl, rfl⟩ | hat) hl
      · exact (hpreserved [] l ⟨rfl, rfl⟩ hl).mono hmore (by simp)
      · exact hothers path l hat hl
  | dir name children rest _ ih =>
      obtain ⟨hname, -, hwfc, hwf⟩ := hwf
      obtain ⟨fs₁, hentry, hrest⟩ := Option.bind_eq_some_iff.mp h
      obtain ⟨hextends, hpreserved, -⟩ :=
        migrateTopEntry_spec hdigest hne hplain hname (fun _ => hwfc) hentry
      obtain ⟨hmore, hothers⟩ := ih hwf hrest
      refine ⟨hextends.trans hmore, ?_⟩
      rintro path l (⟨below, rfl, hat⟩ | hat) hl
      · exact (hpreserved below l hat hl).mono hmore (by simp)
      · exact hothers path l hat hl

/-- The target is a directory beside which no file has the name of the conflicts. -/
structure Rooted (fs : Files α) (path : List Name) (name : Name) (parent : Place) : Prop where
  walk : fs.walk path = .at parent
  target : fs.node (parent ++ [name]) = some .dir
  noLeaf : ∀ l, fs.node (parent ++ [name ++ ".migrated-conflicts".toList]) ≠ some (.leaf l)

theorem conflict_name_last (name : Name) :
    (name ++ ".migrated-conflicts".toList).getLast? = some 's' := by
  rw [List.getLast?_append_of_ne_nil _ (by decide)]
  decide

theorem Rooted.parent_dir {path : List Name} {name : Name} {parent : Place}
    (h : Rooted fs path name parent) : fs.node parent = some .dir := by
  refine fs.parent parent name ?_
  rw [← Files.node, h.target]
  simp

/-- Beside the target no file gets the name of the directory for conflicts. -/
theorem Rooted.frame {path : List Name} {name : Name} {parent : Place}
    (h : Rooted fs path name parent) (hextends : fs.Extends fs')
    (hframe : Frame fs fs' (parent ++ [name])) : Rooted fs' path name parent := by
  refine ⟨walk_mono hextends h.walk, hextends _ _ h.target, fun l hl => ?_⟩
  have hchange : fs'.node (parent ++ [name ++ ".migrated-conflicts".toList]) ≠
      fs.node (parent ++ [name ++ ".migrated-conflicts".toList]) := by
    rw [hl]
    exact fun heq => h.noLeaf l heq.symm
  obtain hunder | hdir | ⟨other, free, hfree, hlast, hpre⟩ := hframe _ hchange
  · have hsame := (List.prefix_append_right_inj parent).mp hunder
    rw [List.cons_prefix_cons] at hsame
    have hlength := congrArg List.length hsame.1
    rw [List.length_append] at hlength
    have hpos : ".migrated-conflicts".toList.length = 19 := by decide
    omega
  · rw [hl] at hdir
    cases hdir
  · obtain hsame | hbefore := List.prefix_concat_iff.mp hpre
    · obtain ⟨-, hname⟩ := List.append_inj' hsame rfl
      rw [List.cons.inj hname |>.1, conflict_name_last] at hlast
      exact hlast rfl
    · have hnone := node_prefix hbefore hfree
      rw [h.parent_dir] at hnone
      cases hnone

/-- What is at the top of the source as `conf.d` goes to the conflicts alone. -/
theorem migrateConfD_under
    (hdigest : ∀ a b, digest.size a = digest.size b →
      digest.fileChecksum a = digest.fileChecksum b → a = b)
    {path : List Name} {name : Name} (hplain : ∀ e ∈ path ++ [name], Plain e) {parent : Place}
    (hrooted : Rooted fs path name parent) {entry : TopEntry α} (hconf : entry.name = confD)
    (hwf : entry.node = .dir → entry.children.WellFormed)
    (h : migrateTopEntry digest (path ++ [name]) fs entry = some fs') :
    fs.Extends fs' ∧
      ChangesUnder fs fs' (parent ++ [name ++ ".migrated-conflicts".toList]) ∧
      Rooted fs' path name parent := by
  have hne : path ++ [name] ≠ [] := by simp
  have hconfD : Plain confD := by decide
  have hroot : conflictRootOf (path ++ [name]) =
      path ++ [name ++ ".migrated-conflicts".toList] := withSuffix_concat _ _ _
  have hconflict := plain_conflictRoot hne hplain
  rw [hroot] at hconflict
  obtain ⟨hextends, -, -, hunder⟩ :=
    migrateTopEntry_spec hdigest hne hplain (hconf ▸ hconfD) hwf h
  have hstays : fs'.node (parent ++ [name ++ ".migrated-conflicts".toList]) = some .dir →
      Rooted fs' path name parent := fun hdir =>
    ⟨walk_mono hextends hrooted.walk, hextends _ _ hrooted.target, fun l hl => by
      rw [hl] at hdir
      cases hdir⟩
  cases hnode : fs.node (parent ++ [name ++ ".migrated-conflicts".toList]) with
  | some found =>
      cases found with
      | leaf l => exact absurd hnode (hrooted.noLeaf l)
      | dir =>
          have hwalk := walk_snoc (hconflict _ (by simp)) hrooted.walk hnode
          exact ⟨hextends, hunder hconf _ (hroot ▸ hwalk), hstays (hextends _ _ hnode)⟩
  | none =>
      -- The directory for conflicts is created together with the entry.
      have hunwalked : ∀ dir, fs.walk (path ++ [name ++ ".migrated-conflicts".toList]) ≠
          .at dir := by
        intro dir hwalk
        obtain ⟨before, hbefore, hdir⟩ := walk_of_snoc (hconflict _ (by simp)) hwalk
        rw [hrooted.walk, Found.at.injEq] at hbefore
        subst hbefore
        obtain ⟨hdir, -⟩ | ⟨text, hlink⟩ := hdir
        · rw [hnode] at hdir
          cases hdir
        · rw [hnode] at hlink
          cases hlink
      rw [migrateTopEntry, if_pos hconf, hroot, hconf] at h
      cases hlstat : fs.lstat (path ++ [name ++ ".migrated-conflicts".toList] ++ [confD]) with
      | failed =>
          simp only [migrateEntry, hlstat] at h
          cases h
      | found found =>
          obtain ⟨dir, hwalk, -⟩ := walk_of_lstat hlstat
          exact absurd hwalk (hunwalked dir)
      | notExist =>
          simp only [migrateEntry, hlstat] at h
          by_cases hspecial : entry.node = .leaf .special
          · rw [hspecial] at h
            obtain rfl := Option.some.inj h
            exact ⟨hextends, fun place hchange => absurd rfl hchange, hrooted⟩
          · have hall : ∀ e ∈ path ++ [name ++ ".migrated-conflicts".toList] ++ [confD],
                Plain e := by
              intro e he
              rcases List.mem_append.mp he with he | he
              · exact hconflict e he
              · exact List.mem_singleton.mp he ▸ hconfD
            obtain ⟨fs₁, dir, hmkdir, hwalk, -, hmore, hchanges, -⟩ :=
              copyMigratedEntry_spec hspecial hall
                (fun hdir => mergeDirContents_copies (hwf hdir) hall) h
            have hmade : dir = parent ++ [name ++ ".migrated-conflicts".toList] ∧
                fs₁.node (parent ++ [name ++ ".migrated-conflicts".toList]) = some .dir := by
              have hgrown := (mkdirAll_spec hconflict hmkdir).1
              obtain ⟨before, hbefore, hdir⟩ := walk_of_snoc (hconflict _ (by simp)) hwalk
              rw [walk_mono hgrown hrooted.walk, Found.at.injEq] at hbefore
              subst hbefore
              obtain ⟨hdir, heq⟩ | ⟨text, hlink⟩ := hdir
              · exact ⟨heq, hdir⟩
              · have hnew := mkdirAll_new hmkdir
                  (parent ++ [name ++ ".migrated-conflicts".toList])
                  (by rw [hlink, hnode]; simp)
                rw [hlink] at hnew
                cases hnew
            obtain ⟨rfl, hdir⟩ := hmade
            refine ⟨hextends, fun place hchange => ?_, hstays (hmore _ _ hdir)⟩
            by_cases hsame : fs'.node place = fs₁.node place
            · rw [hsame] at hchange
              rw [mkdirAll_last hrooted.walk hmkdir hchange]
            · exact (List.prefix_append _ _).trans (hchanges place hsame)

/-- The rounds of the loop leave the target where it is. -/
theorem Rooted.migrateTop
    (hdigest : ∀ a b, digest.size a = digest.size b →
      digest.fileChecksum a = digest.fileChecksum b → a = b)
    {path : List Name} {name : Name} (hplain : ∀ e ∈ path ++ [name], Plain e) {parent : Place}
    (hrooted : Rooted fs path name parent) {entries : List (TopEntry α)}
    (hentries : ∀ entry ∈ entries,
      Plain entry.name ∧ (entry.node = .dir → entry.children.WellFormed))
    (h : entries.foldlM (migrateTopEntry digest (path ++ [name])) fs = some fs') :
    Rooted fs' path name parent := by
  induction entries generalizing fs with
  | nil => exact Option.some.inj h ▸ hrooted
  | cons entry entries ih =>
      obtain ⟨fs₁, hentry, hrest⟩ := Option.bind_eq_some_iff.mp h
      obtain ⟨hname, hwf⟩ := hentries entry List.mem_cons_self
      refine ih ?_ (fun other hother => hentries other (List.mem_cons_of_mem entry hother)) hrest
      by_cases hconf : entry.name = confD
      · exact (migrateConfD_under hdigest hplain hrooted hconf hwf hentry).2.2
      · obtain ⟨hextends, -, hframe, -⟩ :=
          migrateTopEntry_spec hdigest (by simp) hplain hname hwf hentry
        refine hrooted.frame hextends (hframe hconf _ ?_)
        exact walk_snoc (hplain name (by simp)) hrooted.walk hrooted.target

theorem Entries.WellFormed.top {entries : Entries α} (h : entries.WellFormed) :
    ∀ entry ∈ entries.top, Plain entry.name ∧ (entry.node = .dir → entry.children.WellFormed) := by
  induction entries with
  | nil => simp [Entries.top]
  | leaf name node rest ih =>
      intro entry hentry
      rcases List.mem_cons.mp hentry with rfl | hentry
      · exact ⟨h.1, fun hdir => by cases hdir⟩
      · exact ih h.2.2 entry hentry
  | dir name children rest _ ih =>
      intro entry hentry
      rcases List.mem_cons.mp hentry with rfl | hentry
      · exact ⟨h.1, fun _ => h.2.2.1⟩
      · exact ih h.2.2.2 entry hentry

end TopEntries

/-- What lies in the parent of a directory that was created lay there before. -/
theorem node_of_mkdirAll {fs fs' : Files α} {path : List Name} {parent place : Place} {l : Leaf α}
    {name : Name} (hplain : ∀ e ∈ path, Plain e) (h : fs.mkdirAll path = some fs')
    (hwalk : fs'.walk path = .at parent) (hplace : place = parent ++ [name])
    (hnode : fs'.node place = some (.leaf l)) :
    fs.walk path = .at parent ∧ fs.node place = some (.leaf l) := by
  have hold : fs.node place = some (.leaf l) := by
    by_contra hne
    have hdir := mkdirAll_new h place (by rw [hnode]; exact fun heq => hne heq.symm)
    rw [hnode] at hdir
    cases hdir
  obtain rfl | ⟨init, last, rfl⟩ := List.eq_nil_or_concat path
  · obtain rfl := Option.some.inj h
    exact ⟨hwalk, hold⟩
  · rw [List.concat_eq_append] at h hwalk hplain ⊢
    obtain ⟨dir, -, rfl⟩ | ⟨middle, before, hparents, hbefore, hfree, hnodes⟩ := mkdirAll_snoc h
    · exact ⟨hwalk, hold⟩
    · have hextends := extends_of_nodes hfree hnodes
      have hdir : fs'.node (before ++ [last]) = some .dir := by rw [hnodes, if_pos rfl]
      have hinto := walk_snoc (hplain last (by simp)) (walk_mono hextends hbefore) hdir
      rw [hwalk, Found.at.injEq] at hinto
      subst hinto
      have hgrown := (mkdirAll_spec (fun e he => hplain e (List.mem_append_left _ he)) hparents).1
      have hnone := node_below (hgrown.free hfree) name
      rw [← hplace, hold] at hnone
      cases hnone

/-- Once the target has been created, it is a directory of its own. -/
theorem rooted_of_mkdirAll {fs fs' : Files α} {path : List Name} {name : Name}
    (hplain : ∀ e ∈ path ++ [name], Plain e)
    (htarget : ∀ l, fs.lstat (path ++ [name]) ≠ .found (.leaf l))
    (hconflicts : ∀ l, fs.lstat (conflictRootOf (path ++ [name])) ≠ .found (.leaf l))
    (h : fs.mkdirAll (path ++ [name]) = some fs') : ∃ parent, Rooted fs' path name parent := by
  have hroot : conflictRootOf (path ++ [name]) =
      path ++ [name ++ ".migrated-conflicts".toList] := withSuffix_concat _ _ _
  rw [hroot] at hconflicts
  have hpath : ∀ e ∈ path, Plain e := fun e he => hplain e (List.mem_append_left _ he)
  obtain ⟨dir, hwalk, rfl⟩ | ⟨middle, parent, hparents, hparent, hfree, hnodes⟩ := mkdirAll_snoc h
  · obtain ⟨parent, hparent, hdir⟩ := walk_of_snoc (hplain name (by simp)) hwalk
    refine ⟨parent, hparent, ?_, fun l hl => ?_⟩
    · obtain ⟨hdir, -⟩ | ⟨text, hlink⟩ := hdir
      · exact hdir
      · exact absurd (by rw [lstat_snoc hparent, hlink]) (htarget (.symlink text))
    · exact hconflicts l (by rw [lstat_snoc hparent, hl])
  · have hextends := extends_of_nodes hfree hnodes
    refine ⟨parent, walk_mono hextends hparent, by rw [hnodes, if_pos rfl], fun l hl => ?_⟩
    rw [hnodes] at hl
    split_ifs at hl
    · cases hl
    · obtain ⟨hbefore, hold⟩ := node_of_mkdirAll hpath hparents hparent rfl hl
      exact hconflicts l (by rw [lstat_snoc hbefore, hold])

/-- Once a directory has been replaced by a link, each file and each link of it is
in the target at its own place or among the conflicts, nothing that was there has
changed, and nothing from its `conf.d` has come into the target. -/
theorem migration_loses_nothing [DecidableEq β] (digest : Digest α β)
    (hdigest : ∀ a b, digest.size a = digest.size b →
      digest.fileChecksum a = digest.fileChecksum b → a = b)
    (src : SourceDir α) (fs fs' : Files α) (target link : List Name) (text : List Char)
    (hne : target ≠ []) (hplain : ∀ e ∈ target, Plain e)
    (htarget : ∀ l, fs.lstat target ≠ .found (.leaf l))
    (hconflicts : ∀ l, fs.lstat (conflictRootOf target) ≠ .found (.leaf l))
    (h : ensureSymlink digest src target text link fs = some fs') :
    (∀ path l, src.entries.At path l → l ≠ .special → Preserved fs' target path l) ∧
      (∀ place node, fs.node place = some node → fs'.node place = some node) ∧
      ∀ before entry after, src.entries.top = before ++ entry :: after → entry.name = confD →
        ∀ fs₁ fs₂, (fs.mkdirAll target).bind
            (fun fs => before.foldlM (migrateTopEntry digest target) fs) = some fs₁ →
          migrateTopEntry digest target fs₁ entry = some fs₂ →
            ∀ dir place, fs₂.walk target = .at dir → dir <+: place →
              fs₂.node place = fs₁.node place := by
  obtain ⟨fsTarget, hmigrate, hlink⟩ := Option.bind_eq_some_iff.mp h
  obtain ⟨fsMade, hmkdir, hloop⟩ := Option.bind_eq_some_iff.mp hmigrate
  obtain ⟨hmade, -⟩ := mkdirAll_spec hplain hmkdir
  obtain ⟨hmerged, hpreserved⟩ := migrateTop_spec hdigest hne hplain src.wellFormed hloop
  have hlinked : fsTarget.Extends fs' := by
    obtain rfl | ⟨init, last, rfl⟩ := List.eq_nil_or_concat link
    · cases hlink
    · rw [List.concat_eq_append] at hlink
      exact create_extends hlink
  refine ⟨fun path l hat hl => ?_, (hmade.trans hmerged).trans hlinked, ?_⟩
  · refine (hpreserved path l hat hl).mono hlinked ?_
    rintro rfl
    exact at_ne_nil hat
  · intro before entry after htop hconf fs₁ fs₂ hbefore hentry dir place hwalk hunder
    obtain ⟨path, name, rfl⟩ := List.eq_nil_or_concat target |>.resolve_left hne
    rw [List.concat_eq_append] at *
    obtain ⟨fsMade', hmkdir', hbefore⟩ := Option.bind_eq_some_iff.mp hbefore
    obtain ⟨parent, hrooted⟩ := rooted_of_mkdirAll hplain htarget hconflicts hmkdir'
    have hall := src.wellFormed.top
    rw [htop] at hall
    have hrooted₁ := hrooted.migrateTop hdigest hplain
      (fun other hother => hall other (List.mem_append_left _ hother)) hbefore
    obtain ⟨-, hchanges, hrooted₂⟩ := migrateConfD_under hdigest hplain hrooted₁ hconf
      (hall entry (by simp)).2 hentry
    have hdir := walk_snoc (hplain name (by simp)) hrooted₂.walk hrooted₂.target
    rw [hwalk, Found.at.injEq] at hdir
    subst hdir
    by_contra hchange
    obtain ⟨below, rfl⟩ := hunder
    have hpre := hchanges _ hchange
    rw [List.append_assoc, List.prefix_append_right_inj, List.singleton_append,
      List.cons_prefix_cons] at hpre
    have hlength := congrArg List.length hpre.1
    have hpos : ".migrated-conflicts".toList.length = 19 := by decide
    rw [List.length_append] at hlength
    omega

/-- A target that holds a file `a`, for files that are numbers. -/
def smallTarget : Option (Files ℕ) :=
  (Files.root.create ["t".toList] .dir).bind fun fs =>
    fs.create ["t".toList, "a".toList] (.leaf (.file 1))

/-- A source with another file `a`, a link and a `conf.d`. -/
def smallSource : SourceDir ℕ where
  entries := .leaf "a".toList (.file 2) (.leaf "b".toList (.symlink "a".toList)
    (.dir confD (.leaf "d".toList (.file 3) .nil) .nil))
  wellFormed := by
    simp only [Entries.WellFormed, Entries.names]
    decide

theorem migration_loses_nothing_small : ∃ fs fs', smallTarget = some fs ∧
    ensureSymlink ⟨id, id⟩ smallSource ["t".toList] "/t".toList ["s".toList] fs = some fs' ∧
      (∀ path l, smallSource.entries.At path l → l ≠ .special →
        Preserved fs' ["t".toList] path l) := by
  refine ⟨smallTarget.get (by decide), _, (Option.some_get _).symm,
    (Option.some_get (h := by decide)).symm, ?_⟩
  refine (migration_loses_nothing (β := ℕ) ⟨id, id⟩ (fun a b h _ => h) smallSource _ _
    ["t".toList] ["s".toList] "/t".toList (by decide) (by decide) ?_ ?_
    (Option.some_get (h := by decide)).symm).1
  · intro l hl
    have hdir : (smallTarget.get (by decide)).lstat ["t".toList] = .found .dir := by
      decide
    rw [hdir] at hl
    cases hl
  · intro l hl
    have hnone : (smallTarget.get (by decide)).lstat (conflictRootOf ["t".toList]) =
        .notExist := by decide
    rw [hnone] at hl
    cases hl

end GoSite.Bootstrap
