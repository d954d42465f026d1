import GoSite.FileWrites
import GoSite.MigrationSafety

/-!
# Migrating a directory again

A start of the container that repeats the migration finds what the first one
left. A file or a link is recognised by its content, in its place or under the
name it was kept under. A directory is recognised only in its place: where a file
or a link of the target is in the way, each start keeps one more copy of it.
-/
namespace GoSite.Bootstrap

open FileTrees Files Paths

variable {α β : Type*}

/-- Files and links that can be copied, and directories of such. -/
@[grind] def Entries.Copyable : Entries α → Prop
  | nil => True
  | leaf _ node rest => node ≠ .special ∧ rest.Copyable
  | dir _ children rest => children.Copyable ∧ rest.Copyable

/-- For a directory of the source, the target has a directory there, in which the
same holds, or it has nothing. -/
def MeetsDirectory (src : Node α) (below : List Name → Files α → Prop) (dst : List Name)
    (fs : Files α) : Prop :=
  match src, fs.lstat dst with
  | .dir, .found .dir => below dst fs
  | .dir, .found (.leaf _) => False
  | _, _ => True

/-- No directory of the source comes upon a file or a link of the target. -/
@[grind]
def MeetsDirectories [DecidableEq β] (digest : Digest α β) (dstRoot conflictRoot : List Name) :
    Entries α → List Name → Files α → Prop
  | .nil, _, _ => True
  | .leaf name leaf rest, dst, fs =>
      ∀ fs', migrateEntry digest (.leaf leaf) (fun _ fs => some fs) (dst ++ [name]) dstRoot
        conflictRoot fs = some fs' → MeetsDirectories digest dstRoot conflictRoot rest dst fs'
  | .dir name children rest, dst, fs =>
      MeetsDirectory .dir (MeetsDirectories digest dstRoot conflictRoot children) (dst ++ [name])
          fs ∧
        ∀ fs', migrateEntry digest .dir (mergeDirContents digest dstRoot conflictRoot children)
          (dst ++ [name]) dstRoot conflictRoot fs = some fs' →
            MeetsDirectories digest dstRoot conflictRoot rest dst fs'

/-- The same for one entry of the directory itself. -/
def MeetsTopDirectory [DecidableEq β] (digest : Digest α β) (dstDir : List Name) (fs : Files α)
    (entry : TopEntry α) : Prop :=
  let dstRoot := if entry.name = confD then conflictRootOf dstDir else dstDir
  MeetsDirectory entry.node
    (MeetsDirectories digest dstRoot (conflictRootOf dstDir) entry.children)
    (dstRoot ++ [entry.name]) fs

@[grind]
def MeetsTopDirectories [DecidableEq β] (digest : Digest α β) (dstDir : List Name) :
    List (TopEntry α) → Files α → Prop
  | [], _ => True
  | entry :: rest, fs =>
      MeetsTopDirectory digest dstDir fs entry ∧
        ∀ fs', migrateTopEntry digest dstDir fs entry = some fs' →
          MeetsTopDirectories digest dstDir rest fs'

/-- A step, from any state that has what the first run left: it changes nothing
when the first run was `clean`, and adds something when it was not. -/
def Again (step : Files α → Option (Files α)) (clean : Prop) (fs : Files α) : Prop :=
  ∀ t, fs.Extends t → ∃ t', step t = some t' ∧ t.Extends t' ∧ (clean → t' = t) ∧
    (¬ clean → ∃ place, t.node place = none ∧ t'.node place ≠ none)

/-- A step that changes nothing once it was done. -/
theorem again_of_settled {step : Files α → Option (Files α)} {clean : Prop} {fs : Files α}
    (hclean : clean) (h : ∀ t, fs.Extends t → step t = some t) : Again step clean fs :=
  fun t ht => ⟨t, h t ht, Extends.refl t, fun _ => rfl, fun hn => absurd hclean hn⟩

theorem Again.congr {step : Files α → Option (Files α)} {clean clean' : Prop} {fs : Files α}
    (h : Again step clean fs) (hiff : clean ↔ clean') : Again step clean' fs := by
  rwa [propext hiff] at h

/-- Two steps, the second of which was done last. -/
theorem Again.bind {step next : Files α → Option (Files α)} {clean clean' : Prop}
    {fs fs' : Files α} (h : Again step clean fs) (h' : Again next clean' fs')
    (hextends : fs.Extends fs') :
    Again (fun t => (step t).bind next) (clean ∧ clean') fs' := by
  intro t ht
  obtain ⟨t₁, hstep, hgrows, hsame, hadds⟩ := h t (hextends.trans ht)
  obtain ⟨t₂, hnext, hgrows', hsame', hadds'⟩ := h' t₁ (ht.trans hgrows)
  refine ⟨t₂, by simp only [hstep, Option.bind_some, hnext], hgrows.trans hgrows', ?_, ?_⟩
  · rintro ⟨hclean, hclean'⟩
    rw [hsame' hclean', hsame hclean]
  · intro hn
    by_cases hclean : clean
    · obtain ⟨place, hfree, hnew⟩ := hadds' fun hclean' => hn ⟨hclean, hclean'⟩
      rw [hsame hclean] at hfree
      exact ⟨place, hfree, hnew⟩
    · obtain ⟨place, hfree, hnew⟩ := hadds hclean
      refine ⟨place, hfree, ?_⟩
      obtain ⟨node, hnode⟩ := Option.ne_none_iff_exists'.mp hnew
      rw [hgrows' place node hnode]
      exact Option.some_ne_none node

theorem Again.mono {step : Files α → Option (Files α)} {clean : Prop} {fs fs' : Files α}
    (h : Again step clean fs) (hextends : fs.Extends fs') : Again step clean fs' :=
  fun t ht => h t (hextends.trans ht)

section
variable [DecidableEq β] {digest : Digest α β} {dstRoot conflictRoot rel : List Name}
  {fs fs' : Files α}

/-! ## Files and links -/

@[simp] theorem migratedEntriesEqual_refl {l : Leaf α} (h : l ≠ .special) :
    migratedEntriesEqual digest (.leaf l) (.leaf l) = true := by
  cases l with
  | file content => simp [migratedEntriesEqual]
  | symlink text => simp [migratedEntriesEqual]
  | special => exact absurd rfl h

/-- The names that are tried for an entry that conflicts. -/
def conflictName (dst dstRoot conflictRoot : List Name) (attempt : ℕ) : List Name :=
  candidate (withSuffix (joinElements conflictRoot (relative dstRoot dst)) ".migrated".toList)
    attempt

/-- They differ in the last element. -/
theorem conflictName_last (dst dstRoot conflictRoot : List Name) (attempt : ℕ) :
    ∃ last, conflictName dst dstRoot conflictRoot attempt =
      (joinElements conflictRoot (relative dstRoot dst)).dropLast ++ [last] := by
  rw [conflictName, candidate]
  split_ifs
  · exact ⟨_, rfl⟩
  · exact ⟨_, withSuffix_concat _ _ _⟩

theorem conflictName_plain {name : Name} (hconflict : ∀ e ∈ conflictRoot, Plain e)
    (hplain : ∀ e ∈ rel ++ [name], Plain e) (attempt : ℕ) :
    ∃ last, conflictName (dstRoot ++ rel ++ [name]) dstRoot conflictRoot attempt =
        conflictRoot ++ rel ++ [last] ∧ ∀ e ∈ conflictRoot ++ rel ++ [last], Plain e := by
  obtain ⟨suffix, hsuffix, hname⟩ := candidate_eq dstRoot conflictRoot hplain attempt
  refine ⟨_, hname, fun e he => ?_⟩
  rcases List.mem_append.mp he with he | he
  · rcases List.mem_append.mp he with he | he
    · exact hconflict e he
    · exact hplain e (List.mem_append_left _ he)
  · rw [List.mem_singleton.mp he]
    exact plain_migrated hsuffix (hplain name (by simp))

theorem conflictName_mono {dst : List Name} {attempt : ℕ} {node : Node α}
    (hextends : fs.Extends fs')
    (h : fs.lstat (conflictName dst dstRoot conflictRoot attempt) = .found node) :
    fs'.lstat (conflictName dst dstRoot conflictRoot attempt) = .found node := by
  obtain ⟨last, hlast⟩ := conflictName_last dst dstRoot conflictRoot attempt
  rw [hlast] at h ⊢
  exact lstat_mono hextends h

theorem taken_mono {src : Node α} {dst : List Name} {attempt : ℕ} (hextends : fs.Extends fs')
    (h : taken digest src (fs.lstat (conflictName dst dstRoot conflictRoot attempt)) = true) :
    taken digest src (fs'.lstat (conflictName dst dstRoot conflictRoot attempt)) = true := by
  cases hfound : fs.lstat (conflictName dst dstRoot conflictRoot attempt) with
  | found node => rwa [conflictName_mono hextends hfound, ← hfound]
  | notExist => simp [hfound, taken] at h
  | failed => simp [hfound, taken] at h

/-- The search goes over the names that are taken. -/
theorem preserve_at {src : Node α} {merge : Merge α} {dst : List Name} {k : ℕ}
    (hbefore : ∀ j < k,
      taken digest src (fs.lstat (conflictName dst dstRoot conflictRoot j)) = true)
    (hk : taken digest src (fs.lstat (conflictName dst dstRoot conflictRoot k)) = false) :
    preserveMigrationConflict digest src merge dst dstRoot conflictRoot fs =
      match fs.lstat (conflictName dst dstRoot conflictRoot k) with
      | .notExist => copyMigratedEntry src merge (conflictName dst dstRoot conflictRoot k) fs
      | .failed => none
      | .found _ => some fs := by
  have hfind : (List.range (fs.entries.length + 1)).find? (fun attempt => ¬ taken digest src
      (fs.lstat (conflictName dst dstRoot conflictRoot attempt))) = some k := by
    obtain ⟨m, hm, huntaken⟩ : ∃ m ∈ List.range (fs.entries.length + 1),
        taken digest src (fs.lstat (conflictName dst dstRoot conflictRoot m)) = false :=
      exists_untaken digest src fs _ _
    have hle : k ≤ m := by
      by_contra hlt
      have htaken := hbefore m (by omega)
      rw [huntaken] at htaken
      cases htaken
    rw [List.find?_range_eq_some]
    refine ⟨by simpa using hk, ?_, fun j hj => by simpa using hbefore j hj⟩
    rw [List.mem_range] at hm ⊢
    omega
  unfold conflictName at hfind ⊢
  rw [preserveMigrationConflict]
  cases hlstat : fs.lstat (candidate (withSuffix (joinElements conflictRoot
    (relative dstRoot dst)) ".migrated".toList) k) with
  | found node => simp only [hfind, hlstat]
  | notExist => simp only [hfind, hlstat]
  | failed => simp only [hfind, hlstat]

/-- The first name that is not taken. -/
theorem first_untaken (digest : Digest α β) (src : Node α) (fs : Files α)
    (dst dstRoot conflictRoot : List Name) :
    ∃ k, (∀ j < k, taken digest src (fs.lstat (conflictName dst dstRoot conflictRoot j)) = true) ∧
      taken digest src (fs.lstat (conflictName dst dstRoot conflictRoot k)) = false := by
  have hex : ∃ k, taken digest src (fs.lstat (conflictName dst dstRoot conflictRoot k)) = false := by
    obtain ⟨m, -, huntaken⟩ := exists_untaken digest src fs
      (joinElements conflictRoot (relative dstRoot dst)).dropLast
      ((joinElements conflictRoot (relative dstRoot dst)).getLastD [] ++ ".migrated".toList)
    exact ⟨m, huntaken⟩
  exact ⟨Nat.find hex, fun j hj => Bool.eq_true_of_not_eq_false (Nat.find_min hex hj),
    Nat.find_spec hex⟩

/-- Where the search of a conflict ended, and what it did there. -/
theorem preserve_cases {src : Node α} {merge : Merge α} {dst : List Name}
    (h : preserveMigrationConflict digest src merge dst dstRoot conflictRoot fs = some fs') :
    ∃ k, (∀ j < k, taken digest src (fs.lstat (conflictName dst dstRoot conflictRoot j)) = true) ∧
      ((∃ node, fs.lstat (conflictName dst dstRoot conflictRoot k) = .found node ∧
          migratedEntriesEqual digest src node = true ∧ fs' = fs) ∨
        fs.lstat (conflictName dst dstRoot conflictRoot k) = .notExist ∧
          copyMigratedEntry src merge (conflictName dst dstRoot conflictRoot k) fs = some fs') := by
  obtain ⟨k, hbefore, hk⟩ := first_untaken digest src fs dst dstRoot conflictRoot
  rw [preserve_at hbefore hk] at h
  refine ⟨k, hbefore, ?_⟩
  cases hlstat : fs.lstat (conflictName dst dstRoot conflictRoot k) with
  | failed =>
      rw [hlstat] at h
      cases h
  | notExist =>
      rw [hlstat] at h
      exact .inr ⟨rfl, h⟩
  | found node =>
      rw [hlstat] at h hk
      refine .inl ⟨node, rfl, ?_, (Option.some.inj h).symm⟩
      simpa [taken] using hk

/-- A file or a link is found again, wherever the first run put it. -/
theorem migrateLeaf_again {l : Leaf α} {merge : Merge α} {name : Name} (hl : l ≠ .special)
    (hroot : ∀ e ∈ dstRoot, Plain e) (hconflict : ∀ e ∈ conflictRoot, Plain e)
    (hplain : ∀ e ∈ rel ++ [name], Plain e)
    (h : migrateEntry digest (.leaf l) merge (dstRoot ++ rel ++ [name]) dstRoot conflictRoot fs =
      some fs') :
    fs.Extends fs' ∧ ∀ t, fs'.Extends t →
      migrateEntry digest (.leaf l) merge (dstRoot ++ rel ++ [name]) dstRoot conflictRoot t =
        some t := by
  have hcopied : ∀ path last fs₁, (∀ e ∈ path ++ [last], Plain e) →
      copyMigratedEntry (.leaf l) merge (path ++ [last]) fs = some fs₁ →
        fs.Extends fs₁ ∧ fs₁.lstat (path ++ [last]) = .found (.leaf l) := by
    intro path last fs₁ hpath hcopy
    have hnode : Node.leaf l ≠ .leaf .special := fun heq => hl (Node.leaf.inj heq)
    obtain ⟨made, dir, hmkdir, -, -, hextends, -, hplaced⟩ :=
      @copyMigratedEntry_spec _ _ .nil _ _ _ _ _ hnode hpath (fun hdir => by cases hdir) hcopy
    have hmade := (mkdirAll_spec (fun e he => hpath e (List.mem_append_left _ he)) hmkdir).1
    have hfound := hplaced [] l ⟨rfl, rfl⟩ hl
    rw [List.append_nil] at hfound
    exact ⟨hmade.trans hextends, hfound⟩
  have hdst : ∀ e ∈ dstRoot ++ rel ++ [name], Plain e := by
    intro e he
    rw [List.append_assoc] at he
    exact (List.mem_append.mp he).elim (hroot e) (hplain e)
  unfold migrateEntry at h
  cases hlstat : fs.lstat (dstRoot ++ rel ++ [name]) with
  | failed =>
      simp only [hlstat] at h
      cases h
  | notExist =>
      simp only [hlstat] at h
      obtain ⟨hextends, hfound⟩ := hcopied _ _ _ hdst h
      refine ⟨hextends, fun t ht => ?_⟩
      rw [migrateEntry, lstat_mono ht hfound]
      simp only [migratedEntriesEqual_refl hl, if_true]
  | found node =>
      simp only [hlstat] at h
      by_cases hequal : migratedEntriesEqual digest (.leaf l) node = true
      · rw [if_pos hequal] at h
        obtain rfl := Option.some.inj h
        refine ⟨Extends.refl fs, fun t ht => ?_⟩
        rw [migrateEntry, lstat_mono ht hlstat]
        simp only [hequal, if_true]
      · rw [if_neg hequal] at h
        obtain ⟨k, hbefore, hend⟩ := preserve_cases h
        have hrepeat : ∀ t found, fs.Extends t →
            t.lstat (conflictName (dstRoot ++ rel ++ [name]) dstRoot conflictRoot k) =
              .found found → migratedEntriesEqual digest (.leaf l) found = true →
            migrateEntry digest (.leaf l) merge (dstRoot ++ rel ++ [name]) dstRoot conflictRoot t =
              some t := by
          intro t found ht hk heq
          have huntaken : taken digest (.leaf l) (t.lstat (conflictName
              (dstRoot ++ rel ++ [name]) dstRoot conflictRoot k)) = false := by
            rw [hk]
            simp [taken, heq]
          rw [migrateEntry, lstat_mono ht hlstat]
          simp only [if_neg hequal]
          rw [preserve_at (fun j hj => taken_mono ht (hbefore j hj)) huntaken, hk]
        obtain ⟨found, hk, heq, rfl⟩ | ⟨-, hcopy⟩ := hend
        · exact ⟨Extends.refl _, fun t ht => hrepeat t found ht (conflictName_mono ht hk) heq⟩
        · obtain ⟨last, hname, hkept⟩ := conflictName_plain hconflict hplain k
          rw [hname] at hcopy
          obtain ⟨hextends, hfound⟩ := hcopied _ _ _ hkept hcopy
          rw [← hname] at hfound
          exact ⟨hextends, fun t ht => hrepeat t _ (hextends.trans ht) (conflictName_mono ht hfound)
            (migratedEntriesEqual_refl hl)⟩

/-! ## Directories -/

/-- Copying the first entry of a listing leaves the place free for the others. -/
theorem fresh_rest {node : Node α} {children rest : Entries α} {merge : Merge α}
    {dst : List Name} {name : Name} {dir : Place} (hplain : ∀ e ∈ dst ++ [name], Plain e)
    (hcopies : node = .dir → Copies children merge (dst ++ [name])) (hname : name ∉ rest.names)
    (hwalk : fs.walk dst = .at dir) (hfree : ∀ n ∈ name :: rest.names, fs.node (dir ++ [n]) = none)
    (h : migrateEntry digest node merge (dst ++ [name]) dstRoot conflictRoot fs = some fs') :
    fs'.walk dst = .at dir ∧ ∀ n ∈ rest.names, fs'.node (dir ++ [n]) = none := by
  obtain ⟨hextends, hchanges, -⟩ :=
    migrateEntry_fresh hplain hcopies hwalk (hfree name List.mem_cons_self) h
  refine ⟨walk_mono hextends hwalk, fun n hn => ?_⟩
  by_contra hne
  have hchange : fs'.node (dir ++ [n]) ≠ fs.node (dir ++ [n]) := by
    rw [hfree n (List.mem_cons_of_mem name hn)]
    exact hne
  have hsame := (List.prefix_append_right_inj dir).mp (hchanges _ hchange)
  rw [List.cons_prefix_cons] at hsame
  exact hname (hsame.1 ▸ hn)

/-- A new directory in a directory that is there. -/
theorem create_dir {path : List Name} {name : Name} {dir : Place} (hname : Plain name)
    (hwalk : fs.walk path = .at dir) (h : fs.create (path ++ [name]) .dir = some fs') :
    fs.Extends fs' ∧ fs.node (dir ++ [name]) = none ∧ fs'.lstat (path ++ [name]) = .found .dir ∧
      fs'.walk (path ++ [name]) = .at (dir ++ [name]) ∧
        ∀ child, fs'.node (dir ++ [name] ++ [child]) = none := by
  obtain ⟨dir', hdir', hfree, hnodes⟩ := create_spec h
  rw [hwalk, Found.at.injEq] at hdir'
  subst hdir'
  have hextends := extends_of_nodes hfree hnodes
  have hnew : fs'.node (dir ++ [name]) = some .dir := by rw [hnodes, if_pos rfl]
  refine ⟨hextends, hfree, ?_, walk_snoc hname (walk_mono hextends hwalk) hnew, fun child => ?_⟩
  · rw [lstat_snoc (walk_mono hextends hwalk), hnew]
  · rw [hnodes, if_neg (by simp)]
    exact node_below hfree child

/-- In a new directory there is nothing to come upon, and everything can be
copied. -/
theorem mergeDirContents_fresh {children : Entries α} (hwf : children.WellFormed)
    {dst : List Name} (hplain : ∀ e ∈ dst, Plain e) {dir : Place} (hwalk : fs.walk dst = .at dir)
    (hfree : ∀ name ∈ children.names, fs.node (dir ++ [name]) = none) :
    MeetsDirectories digest dstRoot conflictRoot children dst fs ∧
      ∃ fs', mergeDirContents digest dstRoot conflictRoot children dst fs = some fs' := by
  induction children generalizing dst dir fs with
  | nil => exact ⟨trivial, fs, rfl⟩
  | leaf name node rest ih =>
      obtain ⟨hname, hnew, hwf⟩ := hwf
      have hpath : ∀ e ∈ dst ++ [name], Plain e := by
        simpa [or_imp, forall_and] using And.intro hplain hname
      have hnone : fs.lstat (dst ++ [name]) = .notExist := by
        rw [lstat_snoc hwalk, hfree name List.mem_cons_self]
      have hrest : ∀ fs₁, migrateEntry digest (.leaf node) (fun _ fs => some fs) (dst ++ [name])
          dstRoot conflictRoot fs = some fs₁ →
            fs₁.walk dst = .at dir ∧ ∀ n ∈ rest.names, fs₁.node (dir ++ [n]) = none :=
        fun fs₁ h => @fresh_rest _ _ _ _ _ _ _ _ _ .nil _ _ _ _ _ hpath
          (fun hdir => by cases hdir) hnew hwalk hfree h
      obtain ⟨fs₁, hentry⟩ : ∃ fs₁, migrateEntry digest (.leaf node) (fun _ fs => some fs)
          (dst ++ [name]) dstRoot conflictRoot fs = some fs₁ := by
        simp only [migrateEntry, hnone]
        by_cases hspecial : node = .special
        · exact ⟨fs, by rw [hspecial, copyMigratedEntry]⟩
        · obtain ⟨fs₁, hcreate⟩ := create_some (.leaf node) hwalk (hfree name List.mem_cons_self)
          refine ⟨fs₁, ?_⟩
          cases node with
          | special => exact absurd rfl hspecial
          | file content =>
              simp [copyMigratedEntry, mkdirAll_of_walk hwalk, hcreate]
          | symlink text =>
              simp [copyMigratedEntry, mkdirAll_of_walk hwalk, hcreate]
      refine ⟨fun fs₁ h => (ih hwf hplain (hrest fs₁ h).1 (hrest fs₁ h).2).1, ?_⟩
      obtain ⟨fs₂, hmerge⟩ := (ih hwf hplain (hrest fs₁ hentry).1 (hrest fs₁ hentry).2).2
      exact ⟨fs₂, by rw [mergeDirContents, hentry, Option.bind_some, hmerge]⟩
  | dir name children rest ihc ih =>
      obtain ⟨hname, hnew, hwfc, hwf⟩ := hwf
      have hpath : ∀ e ∈ dst ++ [name], Plain e := by
        simpa [or_imp, forall_and] using And.intro hplain hname
      have hnone : fs.lstat (dst ++ [name]) = .notExist := by
        rw [lstat_snoc hwalk, hfree name List.mem_cons_self]
      have hrest : ∀ fs₁, migrateEntry digest .dir (mergeDirContents digest dstRoot conflictRoot
          children) (dst ++ [name]) dstRoot conflictRoot fs = some fs₁ →
            fs₁.walk dst = .at dir ∧ ∀ n ∈ rest.names, fs₁.node (dir ++ [n]) = none :=
        fun fs₁ h => fresh_rest hpath (fun _ => mergeDirContents_copies hwfc hpath) hnew hwalk
          hfree h
      obtain ⟨fs₁, hentry⟩ : ∃ fs₁, migrateEntry digest .dir (mergeDirContents digest dstRoot
          conflictRoot children) (dst ++ [name]) dstRoot conflictRoot fs = some fs₁ := by
        obtain ⟨made, hcreate⟩ := create_some .dir hwalk (hfree name List.mem_cons_self)
        obtain ⟨-, -, -, hinto, hempty⟩ := create_dir hname hwalk hcreate
        obtain ⟨fs₁, hmerge⟩ := (ihc hwfc hpath hinto fun child _ => hempty child).2
        refine ⟨fs₁, ?_⟩
        simp only [migrateEntry, hnone, copyMigratedEntry, List.dropLast_concat,
          mkdirAll_of_walk hwalk, Option.bind_some, hcreate, hmerge]
      refine ⟨⟨?_, fun fs₁ h => (ih hwf hplain (hrest fs₁ h).1 (hrest fs₁ h).2).1⟩, ?_⟩
      · simp only [MeetsDirectory, hnone]
      · obtain ⟨fs₂, hmerge⟩ := (ih hwf hplain (hrest fs₁ hentry).1 (hrest fs₁ hentry).2).2
        exact ⟨fs₂, by rw [mergeDirContents, hentry, Option.bind_some, hmerge]⟩

/-- A directory is copied to a name that is free in a directory that is there. -/
theorem copyDir_fresh {children : Entries α} (hwf : children.WellFormed) {path : List Name}
    {name : Name} (hplain : ∀ e ∈ path ++ [name], Plain e) {dir : Place}
    (hwalk : fs.walk path = .at dir) (hfree : fs.node (dir ++ [name]) = none) :
    ∃ fs', copyMigratedEntry .dir (mergeDirContents digest dstRoot conflictRoot children)
        (path ++ [name]) fs = some fs' ∧ fs.Extends fs' ∧ fs'.node (dir ++ [name]) ≠ none := by
  obtain ⟨made, hcreate⟩ := create_some .dir hwalk hfree
  obtain ⟨hextends, -, hfound, hinto, hempty⟩ := create_dir (hplain name (by simp)) hwalk hcreate
  obtain ⟨fs', hmerge⟩ := (@mergeDirContents_fresh _ _ _ digest dstRoot conflictRoot made _ hwf _
    hplain _ hinto fun child _ => hempty child).2
  have hmore := (mergeDirContents_copies hwf hplain made fs' _ hinto
    (fun child _ => hempty child) hmerge).1
  refine ⟨fs', ?_, hextends.trans hmore, ?_⟩
  · simp only [copyMigratedEntry, List.dropLast_concat, mkdirAll_of_walk hwalk, Option.bind_some,
      hcreate, hmerge]
  · rw [hmore _ _ (walk_dir hinto)]
    exact Option.some_ne_none _

/-- A directory that comes upon a file or a link is kept once more. -/
theorem preserveDir_again {children : Entries α} (hwf : children.WellFormed) {name : Name}
    (hconflict : ∀ e ∈ conflictRoot, Plain e) (hplain : ∀ e ∈ rel ++ [name], Plain e)
    (h : preserveMigrationConflict digest .dir
      (mergeDirContents digest dstRoot conflictRoot children) (dstRoot ++ rel ++ [name]) dstRoot
      conflictRoot fs = some fs') :
    fs.Extends fs' ∧ ∀ t, fs'.Extends t → ∃ t', preserveMigrationConflict digest .dir
      (mergeDirContents digest dstRoot conflictRoot children) (dstRoot ++ rel ++ [name]) dstRoot
      conflictRoot t = some t' ∧ t.Extends t' ∧
        ∃ place, t.node place = none ∧ t'.node place ≠ none := by
  obtain ⟨k, -, ⟨node, -, hequal, -⟩ | ⟨-, hcopy⟩⟩ := preserve_cases h
  · cases node <;> cases hequal
  · obtain ⟨last, hname, hkept⟩ := conflictName_plain hconflict hplain k
    rw [hname] at hcopy
    have hpath : ∀ e ∈ conflictRoot ++ rel, Plain e :=
      fun e he => hkept e (List.mem_append_left _ he)
    obtain ⟨made, dir, hmkdir, hwalk, hfree, hmore, -⟩ := copyMigratedEntry_spec
      (by simp) hkept
      (fun _ => @mergeDirContents_copies _ _ _ digest dstRoot conflictRoot _ hwf _ hkept) hcopy
    refine ⟨(mkdirAll_spec hpath hmkdir).1.trans hmore, fun t ht => ?_⟩
    have hthere : t.walk (conflictRoot ++ rel) = .at dir := walk_mono (hmore.trans ht) hwalk
    obtain ⟨k', hbefore, huntaken⟩ := first_untaken digest .dir t (dstRoot ++ rel ++ [name])
      dstRoot conflictRoot
    obtain ⟨last', hname', hkept'⟩ := conflictName_plain hconflict hplain k'
    have hempty : t.node (dir ++ [last']) = none := by
      rw [hname', lstat_snoc hthere] at huntaken
      cases hnode : t.node (dir ++ [last']) with
      | none => rfl
      | some node =>
          rw [hnode] at huntaken
          cases node <;> cases huntaken
    obtain ⟨t', hcopied, hgrows, hnew⟩ :=
      @copyDir_fresh _ _ _ digest dstRoot conflictRoot t _ hwf _ _ hkept' _ hthere hempty
    refine ⟨t', ?_, hgrows, _, hempty, hnew⟩
    rw [preserve_at hbefore huntaken, hname', lstat_snoc hthere, hempty]
    exact hcopied

/-- A directory of the source, of which the same is known of what is in it. -/
theorem migrateDir_again {children : Entries α} (hwf : children.WellFormed) {name : Name}
    (hroot : ∀ e ∈ dstRoot, Plain e) (hconflict : ∀ e ∈ conflictRoot, Plain e)
    (hplain : ∀ e ∈ rel ++ [name], Plain e)
    (hmerge : ∀ fs fs', mergeDirContents digest dstRoot conflictRoot children
      (dstRoot ++ rel ++ [name]) fs = some fs' → fs.Extends fs' ∧
        Again (mergeDirContents digest dstRoot conflictRoot children (dstRoot ++ rel ++ [name]))
          (MeetsDirectories digest dstRoot conflictRoot children (dstRoot ++ rel ++ [name]) fs) fs')
    (h : migrateEntry digest .dir (mergeDirContents digest dstRoot conflictRoot children)
      (dstRoot ++ rel ++ [name]) dstRoot conflictRoot fs = some fs') :
    fs.Extends fs' ∧
      Again (migrateEntry digest .dir (mergeDirContents digest dstRoot conflictRoot children)
          (dstRoot ++ rel ++ [name]) dstRoot conflictRoot)
        (MeetsDirectory .dir (MeetsDirectories digest dstRoot conflictRoot children)
          (dstRoot ++ rel ++ [name]) fs) fs' := by
  have hdst : ∀ e ∈ dstRoot ++ rel ++ [name], Plain e := by
    intro e he
    rw [List.append_assoc] at he
    exact (List.mem_append.mp he).elim (hroot e) (hplain e)
  unfold migrateEntry at h
  cases hlstat : fs.lstat (dstRoot ++ rel ++ [name]) with
  | failed =>
      simp only [hlstat] at h
      cases h
  | notExist =>
      simp only [hlstat] at h
      rw [copyMigratedEntry, List.dropLast_concat] at h
      obtain ⟨made, hmade, hmerged⟩ := Option.bind_eq_some_iff.mp h
      obtain ⟨parents, hmkdir, hcreate⟩ := Option.bind_eq_some_iff.mp hmade
      obtain ⟨hparents, dir, hwalk⟩ :=
        mkdirAll_spec (fun e he => hdst e (List.mem_append_left _ he)) hmkdir
      obtain ⟨hnew, -, hfound, hinto, hempty⟩ := create_dir (hdst name (by simp)) hwalk hcreate
      obtain ⟨hextends, hagain⟩ := hmerge made fs' hmerged
      have hclear := (@mergeDirContents_fresh _ _ _ digest dstRoot conflictRoot made _ hwf _ hdst _
        hinto fun child _ => hempty child).1
      refine ⟨(hparents.trans hnew).trans hextends, fun t ht => ?_⟩
      obtain ⟨t', hstep, hgrows, hsame, -⟩ := hagain t ht
      refine ⟨t', ?_, hgrows, fun _ => hsame hclear, fun hn => absurd ?_ hn⟩
      · rw [migrateEntry, lstat_mono (hextends.trans ht) hfound]
        exact hstep
      · simp only [MeetsDirectory, hlstat]
  | found node =>
      cases node with
      | dir =>
          simp only [hlstat] at h
          obtain ⟨hextends, hagain⟩ := hmerge fs fs' h
          refine ⟨hextends, fun t ht => ?_⟩
          have hthere := lstat_mono (hextends.trans ht) hlstat
          simp only [migrateEntry, hthere, MeetsDirectory, hlstat]
          exact hagain t ht
      | leaf l =>
          simp only [hlstat] at h
          have hdiffer : migratedEntriesEqual digest .dir (.leaf l) = false := by cases l <;> rfl
          rw [hdiffer, if_neg (by decide)] at h
          obtain ⟨hextends, hagain⟩ := preserveDir_again hwf hconflict hplain h
          refine ⟨hextends, fun t ht => ?_⟩
          have hthere := lstat_mono (hextends.trans ht) hlstat
          obtain ⟨t', hstep, hgrows, hadds⟩ := hagain t ht
          refine ⟨t', ?_, hgrows, fun hclear => ?_, fun _ => hadds⟩
          · simp only [migrateEntry, hthere, hdiffer]
            exact hstep
          · simp only [MeetsDirectory, hlstat] at hclear

/-! ## The whole directory -/

theorem mergeDirContents_again {children : Entries α} (hwf : children.WellFormed)
    (hcopyable : children.Copyable) (hroot : ∀ e ∈ dstRoot, Plain e)
    (hconflict : ∀ e ∈ conflictRoot, Plain e) (hplain : ∀ e ∈ rel, Plain e)
    (h : mergeDirContents digest dstRoot conflictRoot children (dstRoot ++ rel) fs = some fs') :
    fs.Extends fs' ∧ Again (mergeDirContents digest dstRoot conflictRoot children (dstRoot ++ rel))
      (MeetsDirectories digest dstRoot conflictRoot children (dstRoot ++ rel) fs) fs' := by
  induction children generalizing rel fs fs' with
  | nil =>
      obtain rfl := Option.some.inj h
      exact ⟨Extends.refl fs, again_of_settled trivial fun t _ => rfl⟩
  | leaf name node rest ih =>
      obtain ⟨hname, -, hwf⟩ := hwf
      obtain ⟨hl, hcopyable⟩ := hcopyable
      have hpath : ∀ e ∈ rel ++ [name], Plain e := by
        simpa [or_imp, forall_and] using And.intro hplain hname
      obtain ⟨fs₁, hentry, hrest⟩ := Option.bind_eq_some_iff.mp h
      obtain ⟨hextends, hsettled⟩ := migrateLeaf_again hl hroot hconflict hpath hentry
      obtain ⟨hmore, hagain⟩ := ih hwf hcopyable hplain hrest
      refine ⟨hextends.trans hmore, ?_⟩
      refine ((again_of_settled trivial hsettled).bind hagain hmore).congr ?_
      rw [true_and, MeetsDirectories]
      exact ⟨fun hclear fs₂ h₂ => by rw [hentry] at h₂; exact Option.some.inj h₂ ▸ hclear,
        fun hclear => hclear fs₁ hentry⟩
  | dir name children rest ihc ih =>
      obtain ⟨hname, -, hwfc, hwf⟩ := hwf
      obtain ⟨hcopyablec, hcopyable⟩ := hcopyable
      have hpath : ∀ e ∈ rel ++ [name], Plain e := by
        simpa [or_imp, forall_and] using And.intro hplain hname
      obtain ⟨fs₁, hentry, hrest⟩ := Option.bind_eq_some_iff.mp h
      obtain ⟨hextends, hfirst⟩ := migrateDir_again hwfc hroot hconflict hpath
        (fun fs fs' hm => by
          rw [List.append_assoc] at hm ⊢
          exact ihc hwfc hcopyablec hpath hm) hentry
      obtain ⟨hmore, hagain⟩ := ih hwf hcopyable hplain hrest
      refine ⟨hextends.trans hmore, (hfirst.bind hagain hmore).congr ?_⟩
      rw [MeetsDirectories]
      refine and_congr_right fun _ => ?_
      exact ⟨fun hclear fs₂ h₂ => by rw [hentry] at h₂; exact Option.some.inj h₂ ▸ hclear,
        fun hclear => hclear fs₁ hentry⟩

end

section
variable [DecidableEq β] {digest : Digest α β} {target : List Name} {fs fs' : Files α}

theorem migrateTopEntry_again (hne : target ≠ []) (hplain : ∀ e ∈ target, Plain e)
    {entry : TopEntry α} (hname : Plain entry.name)
    (hwf : entry.node = .dir → entry.children.WellFormed ∧ entry.children.Copyable)
    (hcopyable : entry.node ≠ .leaf .special)
    (h : migrateTopEntry digest target fs entry = some fs') :
    fs.Extends fs' ∧ Again (fun t => migrateTopEntry digest target t entry)
      (MeetsTopDirectory digest target fs entry) fs' := by
  have hconflict := plain_conflictRoot hne hplain
  have hroot : ∀ e ∈ (if entry.name = confD then conflictRootOf target else target), Plain e := by
    split_ifs
    · exact hconflict
    · exact hplain
  unfold migrateTopEntry MeetsTopDirectory at *
  dsimp only at h ⊢
  generalize (if entry.name = confD then conflictRootOf target else target) = dstRoot at *
  have hlast : ∀ e ∈ [] ++ [entry.name], Plain e := by simpa using hname
  have hdst : dstRoot ++ [] ++ [entry.name] = dstRoot ++ [entry.name] := by
    rw [List.append_nil]
  rw [← hdst] at h ⊢
  cases hnode : entry.node with
  | leaf l =>
      have hl : l ≠ .special := fun heq => hcopyable (by rw [hnode, heq])
      rw [hnode] at h
      obtain ⟨hextends, hsettled⟩ := migrateLeaf_again hl hroot hconflict hlast h
      exact ⟨hextends, again_of_settled trivial hsettled⟩
  | dir =>
      obtain ⟨hwf, hcopyable⟩ := hwf hnode
      rw [hnode] at h
      refine migrateDir_again hwf hroot hconflict hlast (fun fs fs' hm => ?_) h
      rw [List.append_assoc] at hm ⊢
      exact mergeDirContents_again hwf hcopyable hroot hconflict hlast hm

theorem migrateTop_again (hne : target ≠ []) (hplain : ∀ e ∈ target, Plain e)
    {entries : List (TopEntry α)} (hentries : ∀ entry ∈ entries, Plain entry.name ∧
      entry.node ≠ .leaf .special ∧
        (entry.node = .dir → entry.children.WellFormed ∧ entry.children.Copyable))
    (h : entries.foldlM (migrateTopEntry digest target) fs = some fs') :
    fs.Extends fs' ∧ Again (fun t => entries.foldlM (migrateTopEntry digest target) t)
      (MeetsTopDirectories digest target entries fs) fs' := by
  induction entries generalizing fs with
  | nil =>
      obtain rfl := Option.some.inj h
      exact ⟨Extends.refl fs, again_of_settled trivial fun t _ => rfl⟩
  | cons entry entries ih =>
      obtain ⟨⟨hname, hspecial, hdir⟩, hentries⟩ := List.forall_mem_cons.mp hentries
      rw [List.foldlM_cons] at h
      obtain ⟨fs₁, hentry, hrest⟩ := Option.bind_eq_some_iff.mp h
      obtain ⟨hextends, hfirst⟩ := migrateTopEntry_again hne hplain hname hdir hspecial hentry
      obtain ⟨hmore, hagain⟩ := ih hentries hrest
      refine ⟨hextends.trans hmore, ?_⟩
      simp only [List.foldlM_cons]
      refine (hfirst.bind hagain hmore).congr (and_congr_right fun _ => ?_)
      exact ⟨fun hclear fs₂ h₂ => by rw [hentry] at h₂; exact Option.some.inj h₂ ▸ hclear,
        fun hclear => hclear fs₁ hentry⟩

/-- What a directory holds can be copied if it can be copied as a whole. -/
theorem Entries.Copyable.top {entries : Entries α} (h : entries.Copyable) :
    ∀ entry ∈ entries.top,
      entry.node ≠ .leaf .special ∧ (entry.node = .dir → entry.children.Copyable) := by
  induction entries with
  | nil => simp [Entries.top]
  | leaf name node rest ih =>
      intro entry hentry
      rcases List.mem_cons.mp hentry with rfl | hentry
      · exact ⟨fun heq => h.1 (Node.leaf.inj heq), fun hdir => by cases hdir⟩
      · exact ih h.2 entry hentry
  | dir name children rest _ ih =>
      intro entry hentry
      rcases List.mem_cons.mp hentry with rfl | hentry
      · exact ⟨by simp, fun _ => h.1⟩
      · exact ih h.2 entry hentry

/-- The migration comes upon no file and no link of the target, or of what it has
kept itself, where the source has a directory. -/
def MigratesCleanly (digest : Digest α β) (src : SourceDir α) (dstDir : List Name)
    (fs : Files α) : Prop :=
  ∀ made, fs.mkdirAll dstDir = some made →
    MeetsTopDirectories digest dstDir src.entries.top made

end

/-- Migrating the same directory again succeeds, and it changes nothing exactly
when no directory of it came upon a file or a link. -/
theorem migration_repeats_iff [DecidableEq β] (digest : Digest α β) (src : SourceDir α)
    (target : List Name) (fs fs' : Files α) (hne : target ≠ [])
    (hplain : ∀ e ∈ target, Plain e) (hcopyable : src.entries.Copyable)
    (h : migrateDirContents digest src target fs = some fs') :
    ∃ fs'', migrateDirContents digest src target fs' = some fs'' ∧
      (fs'' = fs' ↔ MigratesCleanly digest src target fs) := by
  obtain ⟨made, hmkdir, hloop⟩ := Option.bind_eq_some_iff.mp h
  obtain ⟨-, dir, hwalk⟩ := mkdirAll_spec hplain hmkdir
  have hentries : ∀ entry ∈ src.entries.top, Plain entry.name ∧ entry.node ≠ .leaf .special ∧
      (entry.node = .dir → entry.children.WellFormed ∧ entry.children.Copyable) := by
    intro entry hentry
    obtain ⟨hname, hwf⟩ := src.wellFormed.top entry hentry
    obtain ⟨hspecial, hcopy⟩ := hcopyable.top entry hentry
    exact ⟨hname, hspecial, fun hdir => ⟨hwf hdir, hcopy hdir⟩⟩
  obtain ⟨hextends, hagain⟩ := migrateTop_again hne hplain hentries hloop
  obtain ⟨fs'', hrepeat, -, hsame, hadds⟩ := hagain fs' (Extends.refl fs')
  have hclean : MigratesCleanly digest src target fs ↔
      MeetsTopDirectories digest target src.entries.top made := by
    rw [MigratesCleanly, hmkdir]
    exact ⟨fun hall => hall made rfl, fun hmeets _ heq => Option.some.inj heq ▸ hmeets⟩
  refine ⟨fs'', ?_, ?_⟩
  · rw [migrateDirContents, mkdirAll_of_walk (walk_mono hextends hwalk), Option.bind_some]
    exact hrepeat
  · rw [hclean]
    refine ⟨fun heq => ?_, hsame⟩
    by_contra hn
    obtain ⟨place, hfree, hnew⟩ := hadds hn
    rw [heq] at hnew
    exact hnew hfree

/-- The files after the first run and after the second. -/
def migrateTwice (src : SourceDir ℕ) : Option (Files ℕ × Files ℕ) :=
  smallTarget.bind fun fs =>
    (migrateDirContents (⟨id, id⟩ : Digest ℕ ℕ) src ["t".toList] fs).bind fun fs' =>
      (migrateDirContents (⟨id, id⟩ : Digest ℕ ℕ) src ["t".toList] fs').map fun fs'' => (fs', fs'')

theorem migration_repeats_small : ∃ fs fs' fs'', smallTarget = some fs ∧
    migrateDirContents ⟨id, id⟩ smallSource ["t".toList] fs = some fs' ∧
      migrateDirContents ⟨id, id⟩ smallSource ["t".toList] fs' = some fs'' ∧
        (fs'' = fs' ↔ MigratesCleanly (⟨id, id⟩ : Digest ℕ ℕ) smallSource ["t".toList] fs) := by
  have hcopyable : smallSource.entries.Copyable := by
    simp [smallSource, Entries.Copyable]
  have hrun : (migrateDirContents (⟨id, id⟩ : Digest ℕ ℕ) smallSource ["t".toList]
      (smallTarget.get (by decide))).isSome = true := by decide
  obtain ⟨fs'', hrepeat, hiff⟩ := migration_repeats_iff (β := ℕ) ⟨id, id⟩ smallSource
    ["t".toList] (smallTarget.get (by decide)) _ (by decide) (by decide) hcopyable
    (Option.some_get hrun).symm
  exact ⟨_, _, fs'', (Option.some_get _).symm, (Option.some_get hrun).symm, hrepeat, hiff⟩

/-- A source with a directory `a`, where the target has a file. -/
def clashSource : SourceDir ℕ where
  entries := .dir "a".toList (.leaf "x".toList (.file 2) .nil) .nil
  wellFormed := by
    simp only [Entries.WellFormed, Entries.names]
    decide

/-- The second run keeps the directory `a` once more. -/
theorem clashing_directory_kept_again : (migrateTwice clashSource).map
    (fun runs => (runs.1.lstat (conflictRootOf ["t".toList] ++ ["a.migrated.1".toList]),
      runs.2.lstat (conflictRootOf ["t".toList] ++ ["a.migrated.1".toList]))) =
        some (.notExist, .found .dir) := by
  decide

end GoSite.Bootstrap
