import GoSite.FstabUpdates

/-!
# The credential files of S3 mounts

The path of a credential file is derived from the mount directory, or it is taken
out of the options of the entry that is replaced. As long as the path a call uses
belongs to no other mount, the mounts keep their files to themselves.
-/
namespace GoSite.Mounts

open GoStrings Paths GuardedRuns
open GoSite.Terminal (joinPath)

/-- The lines of the table, of whatever length. -/
def tableLines (s : MountState) : List Text :=
  match s.fstab with
  | none => []
  | some text => ((rawLines text).map trimSpaceChars).filter isContent

def mounts (s : MountState) : List Row := (tableLines s).filterMap parseFstabLine

/-- The file that the options of an S3 entry name. -/
def credential (cfg : Config) (row : Row) : Option (List Text) :=
  if isS3Type row.type ∧ parsePasswdFileOption row.options ≠ [] then
    some (cfg.file (parsePasswdFileOption row.options))
  else none

def secretFiles (cfg : Config) (rows : List Row) : List (List Text) :=
  rows.filterMap (credential cfg)

/-- A file below the directory of the secrets. -/
def Inside (cfg : Config) (file : List Text) : Prop :=
  cfg.file cfg.secretsDir <+: file ∧ file ≠ cfg.file cfg.secretsDir

instance (cfg : Config) (file : List Text) : Decidable (Inside cfg file) :=
  inferInstanceAs (Decidable (_ ∧ _))

/-- The files differ, and all of them are in the directory of the secrets. -/
def Apart (cfg : Config) (files : List (List Text)) : Prop :=
  files.Nodup ∧ ∀ file ∈ files, Inside cfg file

instance (cfg : Config) (files : List (List Text)) : Decidable (Apart cfg files) :=
  inferInstanceAs (Decidable (_ ∧ _))

/-- No two entries share a credential file, and all are in their directory. -/
def Isolated (cfg : Config) (s : MountState) : Prop := Apart cfg (secretFiles cfg (mounts s))

instance (cfg : Config) (s : MountState) : Decidable (Isolated cfg s) :=
  inferInstanceAs (Decidable (Apart _ _))

/-- The entries that a call is not about. -/
def MountCall.others (s : MountState) : MountCall → List Row
  | .add _ => mounts s
  | .update oldDevice oldDir _ => (mounts s).eraseP (Row.isAt oldDevice oldDir)
  | .delete device dir => (mounts s).filter fun row => row.pair ≠ (device, dir)

/-- Whether it succeeds or fails, a call leaves alone the credentials of other
entries and what is outside the directory of the secrets. -/
def KeepsApart (cfg : Config) (s : MountState) (a : Disk × MountCall) : Prop :=
  ∀ file, (a.2.run cfg a.1 s).1.files file ≠ s.files file →
    Inside cfg file ∧ file ∉ secretFiles cfg (a.2.others s)

/-- The credential file of an S3 entry that is not refused before it is looked at. -/
def usedPath (cfg : Config) (entry : Entry) (keepPasswdPath : Text) (requireKeys : Bool) :
    Option Text :=
  if isS3Type entry.type ∧ entry.s3.any fun s3 =>
      validateS3Bucket s3.bucket = none ∧ (requireKeys → hasKeys s3) then
    some (chosenPasswd cfg entry.dir keepPasswdPath)
  else none

/-- The path that a call takes over from the entry it replaces. -/
def MountCall.kept (s : MountState) : MountCall → Text
  | .update oldDevice oldDir _ => keptPasswd (tableLines s) oldDevice oldDir
  | _ => []

def MountCall.usedPath (cfg : Config) (s : MountState) : MountCall → Option Text
  | .add entry => Mounts.usedPath cfg entry [] true
  | .update oldDevice oldDir entry =>
      if validateLookupFields oldDevice oldDir = none then
        Mounts.usedPath cfg entry (keptPasswd (tableLines s) oldDevice oldDir) false
      else none
  | .delete _ _ => none

/-- The path a call uses can be written as an option, it belongs to no other
entry, and it lies in the directory of the secrets if it was taken over. -/
def FreshPath (cfg : Config) (s : MountState) (call : MountCall) (path : Text) : Prop :=
  ',' ∉ path ∧ path.getLast?.any isSpace = false ∧
    cfg.file path ∉ secretFiles cfg (call.others s) ∧
    (call.kept s ≠ [] → Inside cfg (cfg.file path))

instance (cfg : Config) (s : MountState) (call : MountCall) (path : Text) :
    Decidable (FreshPath cfg s call path) := inferInstanceAs (Decidable (_ ∧ _ ∧ _ ∧ _))

/-- A table is cut off only when no line of it has more columns than an entry. -/
def Cuttable (cfg : Config) (s : MountState) (a : Disk × MountCall) : Prop :=
  (∀ line ∈ tableLines s, (fields line).length ≤ 6) ∧
    ∀ row, accepted cfg a.1 s a.2 = .ok row → (fields (formatEntry row)).length ≤ 6

/-- What a call needs in order to leave the other mounts alone. -/
def Separate (cfg : Config) (s : MountState) (a : Disk × MountCall) : Prop :=
  (∀ path, a.2.usedPath cfg s = some path → FreshPath cfg s a.2 path) ∧
    ((∃ written, a.1 = .writeFails written) → Cuttable cfg s a)

theorem Apart.sublist {cfg : Config} {files kept : List (List Text)} (h : Apart cfg files)
    (hsub : kept.Sublist files) : Apart cfg kept :=
  ⟨h.1.sublist hsub, fun file hfile => h.2 file (hsub.subset hfile)⟩

theorem eq_tableLines {disk : Disk} {s : MountState} {lines : List Text}
    (h : readLines disk s = .ok lines) : lines = tableLines s := by
  simp only [readLines] at h
  rw [tableLines]
  split_ifs at h
  cases hfstab : s.fstab with
  | none =>
      simp only [hfstab] at h
      exact (Except.ok.inj h).symm
  | some text =>
      simp only [hfstab] at h
      split_ifs at h
      exact (Except.ok.inj h).symm

theorem mounts_congr {s t : MountState} (h : t.fstab = s.fstab) : mounts t = mounts s := by
  rw [mounts, mounts, tableLines, tableLines, h]

/-- A word between two texts ends the words of the first. -/
theorem fieldsLoop_space (word a b : Text) {c : Char} (hc : isSpace c = true) :
    fieldsLoop word (a ++ c :: b) = fieldsLoop word a ++ fields b := by
  induction a generalizing word with
  | nil =>
      simp only [List.nil_append, fieldsLoop, hc, if_true]
      split_ifs <;> rfl
  | cons d a ih =>
      rw [List.cons_append, fieldsLoop, fieldsLoop, ih, ih]
      split_ifs <;> rfl

theorem fields_space (a b : Text) {c : Char} (hc : isSpace c = true) :
    fields (a ++ c :: b) = fields a ++ fields b := fieldsLoop_space [] a b hc

theorem fieldsLoop_ne_nil {word s : Text} (h : word ≠ [] ∨ ∃ c ∈ s, isSpace c = false) :
    fieldsLoop word s ≠ [] := by
  induction s generalizing word with
  | nil =>
      have hword : word ≠ [] := by simpa using h
      rw [fieldsLoop, if_neg hword]
      simp
  | cons c s ih =>
      rw [fieldsLoop]
      split_ifs with hc hword
      · refine ih (.inr ?_)
        obtain ⟨d, hd, hspace⟩ := h.resolve_left (not_not.mpr hword)
        rcases List.mem_cons.mp hd with rfl | hd
        · rw [hc] at hspace
          cases hspace
        · exact ⟨d, hd, hspace⟩
      · simp
      · exact ih (.inl (by simp))

/-- A text that begins and ends with something else than white space. -/
theorem fields_ne_nil {s : Text} (hne : s ≠ []) (htrim : trimSpaceChars s = s) : fields s ≠ [] := by
  refine fieldsLoop_ne_nil (.inr ⟨s.head hne, List.head_mem hne, ?_⟩)
  have hhead := trimSpaceChars_head s
  rw [htrim, List.head?_eq_some_head hne] at hhead
  simpa using hhead

/-- A trimmed column that is read as one word has no white space in it. -/
theorem solid_of_fields {col : Text} (hne : col ≠ []) (htrim : trimSpaceChars col = col)
    (hone : (fields col).length = 1) : Solid col := by
  refine ⟨hne, fun c hc => ?_⟩
  by_contra hspace
  rw [Bool.not_eq_false] at hspace
  obtain ⟨a, b, rfl⟩ := List.append_of_mem hc
  have hhead := trimSpaceChars_head (a ++ c :: b)
  have hlast := trimSpaceChars_last (a ++ c :: b)
  rw [htrim] at hhead hlast
  have ha : fields a ≠ [] := by
    cases a with
    | nil => simp [hspace] at hhead
    | cons d a => exact fieldsLoop_ne_nil (.inr ⟨d, List.mem_cons_self, by simpa using hhead⟩)
  have hb : fields b ≠ [] := by
    cases hb : b.getLast? with
    | none =>
        rw [List.getLast?_eq_none_iff] at hb
        simp [hb, hspace] at hlast
    | some d =>
        refine fieldsLoop_ne_nil (.inr ⟨d, List.mem_of_getLast? hb, ?_⟩)
        simpa [List.getLast?_append, List.getLast?_cons, hb] using hlast
  rw [fields_space a b hspace, List.length_append] at hone
  have := List.length_pos_iff.mpr ha
  have := List.length_pos_iff.mpr hb
  omega

/-- The columns of an entry that was accepted. -/
def Row.Trimmed (row : Row) : Prop :=
  ∀ col ∈ row.columns, col ≠ [] ∧ trimSpaceChars col = col ∧ '\n' ∉ col

/-- When the line of an accepted entry is read as an entry, it is that entry. -/
theorem parse_trimmed {row found : Row} (h : row.Trimmed)
    (hparse : parseFstabLine (formatEntry row) = some found) : found = row := by
  have hblank : isSpace ' ' = true := by decide
  have hpos : ∀ col ∈ row.columns, 1 ≤ (fields col).length := fun col hcol =>
    List.length_pos_iff.mpr (fields_ne_nil (h col hcol).1 (h col hcol).2.1)
  have hsix : (fields (formatEntry row)).length = 6 := by
    rw [parseFstabLine] at hparse
    split at hparse
    · next heq =>
      rw [heq]
      rfl
    · cases hparse
  have hlength := hsix
  simp only [formatEntry_eq, fields_space _ _ hblank, List.length_append] at hlength
  have hsolid : ∀ col ∈ row.columns, Solid col := by
    intro col hcol
    refine solid_of_fields (h col hcol).1 (h col hcol).2.1 ?_
    simp only [Row.columns, List.forall_mem_cons] at hpos
    simp only [Row.columns, List.mem_cons, List.not_mem_nil, or_false] at hcol
    rcases hcol with rfl | rfl | rfl | rfl | rfl | rfl <;> omega
  rw [parseFstabLine, formatEntry, fields_intercalate hsolid] at hparse
  exact (Option.some.inj hparse).symm

theorem trimmed_of_normalized {row new : Row} (h : normalizeEntry row = .ok new) :
    new.Trimmed := by
  have htrim : ∀ field, trimSpaceChars (trimSpaceChars field) = trimSpaceChars field :=
    fun field => trimSpaceChars_eq_self (trimSpaceChars_head field) (trimSpaceChars_last field)
  have hdefault : ∀ field : Text, ∀ default : String,
      default.toList ≠ [] ∧ trimSpaceChars default.toList = default.toList →
        orDefault (trimSpaceChars field) default ≠ [] ∧
          trimSpaceChars (orDefault (trimSpaceChars field) default) =
            orDefault (trimSpaceChars field) default := by
    intro field default hd
    rw [orDefault]
    split_ifs with hnil
    · exact hd
    · exact ⟨hnil, htrim field⟩
  simp only [normalizeEntry] at h
  split_ifs at h with hempty htype hspace habs hdump hfsck
  obtain rfl := Except.ok.inj h
  have hline : ∀ col : Text, hasWhitespace col = false → '\n' ∉ col := by
    intro col hcol hm
    rw [hasWhitespace, List.any_eq_false] at hcol
    exact hcol _ hm (by decide)
  rw [not_or] at hempty
  simp only [List.any_cons, List.any_nil, Bool.or_false, Bool.or_eq_true, not_or,
    Bool.not_eq_true] at hspace
  obtain ⟨h1, h2, h3, h4, h5, h6⟩ := hspace
  simp only [Row.Trimmed, Row.columns, List.forall_mem_cons]
  refine ⟨⟨hempty.1, htrim _, hline _ h1⟩, ⟨hempty.2, htrim _, hline _ h2⟩,
    ⟨htype, ?_, hline _ h3⟩, ?_, ?_, ?_, by simp⟩
  · rw [normalizeS3Type]
    split_ifs
    · decide
    · exact htrim _
  · obtain ⟨hne, heq⟩ := hdefault row.options "defaults" (by decide)
    exact ⟨hne, heq, hline _ h4⟩
  · obtain ⟨hne, heq⟩ := hdefault row.dump "0" (by decide)
    exact ⟨hne, heq, hline _ h5⟩
  · obtain ⟨hne, heq⟩ := hdefault row.fsck "0" (by decide)
    exact ⟨hne, heq, hline _ h6⟩

theorem rdropWhile_append_of_last {p : Char → Bool} {s t : Text}
    (hlast : s.getLast?.any p = false) : (s ++ t).rdropWhile p = s ++ t.rdropWhile p := by
  have hself : s.rdropWhile p = s := by
    rw [List.rdropWhile_eq_self_iff]
    intro hne
    simpa [List.getLast?_eq_some_getLast hne] using hlast
  have hdrop : s.reverse.dropWhile p = s.reverse := by
    rw [List.rdropWhile] at hself
    simpa using congrArg List.reverse hself
  rw [List.rdropWhile, List.rdropWhile, List.reverse_append, List.dropWhile_append]
  split_ifs with hempty
  · rw [hdrop, List.isEmpty_iff.mp hempty]
    simp
  · simp

theorem intercalate_flatMap (sep : Char) (w : Text) (ws : List Text) :
    [sep].intercalate (w :: ws) = w ++ ws.flatMap (sep :: ·) := by
  induction ws generalizing w with
  | nil => simp
  | cons v ws ih => simp [List.intercalate_cons_cons, ih]

/-- The options of an S3 entry name the path they were built with. -/
theorem parsePasswdFileOption_built {path : Text} (more : List Text) (hcomma : ',' ∉ path)
    (hlast : path.getLast?.any isSpace = false) :
    parsePasswdFileOption (trimSpaceChars ([','].intercalate
      (["_netdev".toList, "allow_other".toList, passwdOption ++ path] ++ more))) = path := by
  have hoption : (passwdOption ++ path).getLast?.any isSpace = false := by
    cases hpath : path.getLast? with
    | none =>
        rw [List.getLast?_eq_none_iff] at hpath
        rw [hpath]
        decide
    | some c =>
        rw [hpath] at hlast
        simpa [List.getLast?_append, hpath] using hlast
  have hne : passwdOption ≠ [] := by decide
  have hfull : passwdOption ++ path ≠ [] := List.append_ne_nil_of_left_ne_nil hne path
  have hnetdev : ',' ∉ "_netdev".toList := by decide
  have hother : ',' ∉ "allow_other".toList := by decide
  have hpath : ',' ∉ passwdOption ++ path := by
    rw [List.mem_append, not_or]
    exact ⟨by decide, hcomma⟩
  have htext : [','].intercalate
      (["_netdev".toList, "allow_other".toList, passwdOption ++ path] ++ more) =
      ("_netdev".toList ++ ',' :: ("allow_other".toList ++ ',' :: (passwdOption ++ path))) ++
        more.flatMap (',' :: ·) := by
    rw [List.cons_append, intercalate_flatMap]
    simp
  -- Only what stands behind the path can be trimmed, and it begins with a comma.
  obtain ⟨rest, hrest, htrim⟩ : ∃ rest : Text, (rest = [] ∨ rest.head? = some ',') ∧
      trimSpaceChars ([','].intercalate
        (["_netdev".toList, "allow_other".toList, passwdOption ++ path] ++ more)) =
      "_netdev".toList ++ ',' :: ("allow_other".toList ++ ',' :: ((passwdOption ++ path) ++ rest)) := by
    refine ⟨(more.flatMap (',' :: ·)).rdropWhile isSpace, ?_, ?_⟩
    · have hpre := List.rdropWhile_prefix isSpace (more.flatMap (',' :: ·))
      cases hdrop : (more.flatMap (',' :: ·)).rdropWhile isSpace with
      | nil => exact .inl rfl
      | cons c rest =>
          rw [hdrop] at hpre
          cases more with
          | nil => simp at hpre
          | cons option more =>
              rw [List.flatMap_cons, List.cons_append, List.cons_prefix_cons] at hpre
              exact .inr (congrArg some hpre.1)
    · rw [htext, trimSpaceChars, List.dropWhile_eq_self_iff.mpr, rdropWhile_append_of_last]
      · simp
      · rw [List.getLast?_append, List.getLast?_cons, List.getLast?_append, List.getLast?_cons]
        cases hlast' : (passwdOption ++ path).getLast? with
        | none => exact absurd (List.getLast?_eq_none_iff.mp hlast') hfull
        | some c => simpa [hlast'] using hoption
      · intro hpos
        simp
        decide
  rw [htrim, parsePasswdFileOption, List.splitOn_append_cons_self_of_not_mem hnetdev,
    List.splitOn_append_cons_self_of_not_mem hother]
  have hself : trimSpaceChars (passwdOption ++ path) = passwdOption ++ path := by
    refine trimSpaceChars_eq_self ?_ (by rw [hoption]; exact Bool.false_ne_true)
    rw [List.head?_append_of_ne_nil _ hne]
    decide
  have hsplit : ∃ parts, ((passwdOption ++ path) ++ rest).splitOn ',' =
      (passwdOption ++ path) :: parts := by
    rcases hrest with rfl | hhead
    · exact ⟨[], by rw [List.append_nil, List.splitOn_eq_singleton hpath]⟩
    · obtain ⟨tail, rfl⟩ := List.head?_eq_some_iff.mp hhead
      exact ⟨tail.splitOn ',', List.splitOn_append_cons_self_of_not_mem hpath _⟩
  obtain ⟨parts, hparts⟩ := hsplit
  have hskip : ¬ passwdOption <+: trimSpaceChars "_netdev".toList ∧
      ¬ passwdOption <+: trimSpaceChars "allow_other".toList := by decide
  simp only [hparts, List.map_cons, List.find?_cons, hskip.1, hskip.2, hself, List.prefix_append,
    decide_true, decide_false, List.drop_left]

theorem setFile_files_ne {s : MountState} {changed file : List Text} {content : Option Text}
    (h : (setFile s changed content).files file ≠ s.files file) : file = changed := by
  by_contra hne
  exact h (if_neg hne)

theorem provideKeys_files {cfg : Config} {disk : Disk} {s : MountState} {s3 : S3Config}
    {passwd : Text} {needed : Bool} {file : List Text}
    (h : (provideKeys cfg disk s s3 passwd needed).1.files file ≠ s.files file) :
    file = cfg.file passwd := by
  simp only [provideKeys, writePasswdFile] at h
  split_ifs at h
  · exact absurd rfl h
  · split at h
    · exact absurd rfl h
    · exact setFile_files_ne h
    · exact setFile_files_ne h
  · exact absurd rfl h
  · exact absurd rfl h

theorem usedPath_of_keys {cfg : Config} {entry : Entry} {keep : Text} {requireKeys : Bool}
    {s3 : S3Config} (htype : isS3Type entry.type = true) (hs3 : entry.s3 = some s3)
    (hbucket : validateS3Bucket s3.bucket = none)
    (hkeys : ¬ (requireKeys = true ∧ ¬ hasKeys s3 = true)) :
    usedPath cfg entry keep requireKeys = some (chosenPasswd cfg entry.dir keep) := by
  rw [usedPath, if_pos]
  cases requireKeys with
  | false => simp [htype, hs3, hbucket]
  | true => simpa [htype, hs3, hbucket] using hkeys

/-- An entry is prepared without a look at any file but the one it uses. -/
theorem prepare_files {cfg : Config} {disk : Disk} {s : MountState} {entry : Entry} {keep : Text}
    {requireKeys : Bool} {file : List Text}
    (h : (prepare cfg disk s entry keep requireKeys).1.files file ≠ s.files file) :
    ∃ path, usedPath cfg entry keep requireKeys = some path ∧ file = cfg.file path := by
  simp only [prepare] at h
  split_ifs at h with htype
  · simp only [applyS3Entry] at h
    cases hs3 : entry.s3 with
    | none => simp [hs3] at h
    | some s3 =>
        cases hbucket : validateS3Bucket s3.bucket with
        | some err => simp [hs3, hbucket] at h
        | none =>
            simp only [hs3, hbucket] at h
            split_ifs at h with hkeys
            · exact absurd rfl h
            · have hfile : file = cfg.file (chosenPasswd cfg entry.dir keep) := by
                split at h
                · exact provideKeys_files h
                · exact provideKeys_files h
              exact ⟨_, usedPath_of_keys htype hs3 hbucket hkeys, hfile⟩
  · exact absurd rfl h

theorem normalized_options {row new : Row} (h : normalizeEntry row = .ok new) :
    new.type = normalizeS3Type (trimSpaceChars row.type) ∧
      new.options = orDefault (trimSpaceChars row.options) "defaults" := by
  simp only [normalizeEntry] at h
  split_ifs at h
  rw [← Except.ok.inj h]
  exact ⟨rfl, rfl⟩

theorem s3Row_options {cfg : Config} {dir passwd : Text} {s3 : S3Config} {row : Row}
    (h : s3Row cfg dir s3 passwd = .ok row) : ∃ more : List Text, row.options =
      [','].intercalate (["_netdev".toList, "allow_other".toList, passwdOption ++ passwd] ++ more) := by
  simp only [s3Row, buildS3Options] at h
  cases hendpoint : normalizeS3Endpoint cfg s3.endpoint with
  | error err => simp [hendpoint] at h
  | ok endpoint =>
      simp only [hendpoint] at h
      rw [← Except.ok.inj h]
      simp only [List.append_assoc]
      exact ⟨_, rfl⟩

/-- A prepared entry names the file it used, or none. -/
theorem credential_of_prepare {cfg : Config} {disk : Disk} {s : MountState} {entry : Entry}
    {keep : Text} {requireKeys : Bool} {row : Row} {file : List Text}
    (h : (prepare cfg disk s entry keep requireKeys).2 = .ok row)
    (hfile : credential cfg row = some file) :
    ∃ path, usedPath cfg entry keep requireKeys = some path ∧
      (',' ∉ path → path.getLast?.any isSpace = false → file = cfg.file path) := by
  simp only [prepare] at h
  split_ifs at h with htype
  · simp only [applyS3Entry] at h
    cases hs3 : entry.s3 with
    | none => simp [hs3, Except.bind] at h
    | some s3 =>
        cases hbucket : validateS3Bucket s3.bucket with
        | some err => simp [hs3, hbucket, Except.bind] at h
        | none =>
            simp only [hs3, hbucket] at h
            split_ifs at h with hkeys
            · cases h
            · split at h
              · cases h
              · cases hrow : s3Row cfg entry.dir s3 (chosenPasswd cfg entry.dir keep) with
                | error err => simp [hrow, Except.bind] at h
                | ok built =>
                    simp only [hrow, Except.bind] at h
                    obtain ⟨more, hmore⟩ := s3Row_options hrow
                    refine ⟨_, usedPath_of_keys htype hs3 hbucket hkeys, fun hcomma hlast => ?_⟩
                    have hparse := parsePasswdFileOption_built more hcomma hlast
                    rw [← hmore] at hparse
                    rw [credential, (normalized_options h).2, orDefault] at hfile
                    split_ifs at hfile with hnil hsome
                    · exact absurd hsome.2 (by decide)
                    · rw [hparse] at hfile
                      exact (Option.some.inj hfile).symm
  · have hplain : isS3Type row.type = false := by
      have htrim : isS3Type (trimSpaceChars entry.type) = isS3Type entry.type := by
        rw [isS3Type, isS3Type, trimSpaceChars_eq_self (trimSpaceChars_head _)
          (trimSpaceChars_last _)]
      rw [(normalized_options h).1, normalizeS3Type, htrim, if_neg htype, htrim]
      simpa using htype
    simp [credential, hplain] at hfile

theorem mountSecretName_plain (dir : Text) : Plain (mountSecretName dir) := by
  have hhead : (mountSecretName dir).head? = some 's' := rfl
  have hslash : '/' ∉ (if ((trimChar '/' (trimSpaceChars dir)).map fun c =>
      if c = '/' then '-' else c) = [] then "root".toList
      else (trimChar '/' (trimSpaceChars dir)).map fun c => if c = '/' then '-' else c) := by
    split_ifs
    · decide
    · rw [List.mem_map]
      rintro ⟨c, -, hc⟩
      split_ifs at hc with heq
      · cases hc
      · exact heq hc
  refine ⟨?_, ?_, ?_, ?_⟩
  · exact fun h => by simp [h] at hhead
  · exact fun h => by simp [h] at hhead
  · exact fun h => by simp [h] at hhead
  · rw [mountSecretName, List.mem_append, List.mem_append, not_or, not_or]
    exact ⟨⟨by decide, hslash⟩, by decide⟩

/-- A path that is derived from a directory lies where the secrets are. -/
theorem passwdPath_inside (cfg : Config) (dir : Text) :
    Inside cfg (cfg.file (passwdPath cfg.secretsDir dir)) := by
  have hfile : cfg.file (passwdPath cfg.secretsDir dir) =
      cfg.file cfg.secretsDir ++ [mountSecretName dir] := by
    rw [Config.file, passwdPath, absElements_join cfg.cwd cfg.secretsDir_ne,
      resolve_name (mountSecretName_plain dir)]
    rfl
  rw [hfile]
  exact ⟨List.prefix_append _ _, by simp⟩

theorem eq_chosen_of_usedPath {cfg : Config} {entry : Entry} {keep path : Text}
    {requireKeys : Bool} (h : usedPath cfg entry keep requireKeys = some path) :
    path = chosenPasswd cfg entry.dir keep := by
  rw [usedPath] at h
  split_ifs at h
  exact (Option.some.inj h).symm

theorem chosen_inside {cfg : Config} {dir keep : Text}
    (hkeep : keep ≠ [] → Inside cfg (cfg.file (chosenPasswd cfg dir keep))) :
    Inside cfg (cfg.file (chosenPasswd cfg dir keep)) := by
  by_cases hnil : keep = []
  · rw [chosenPasswd, if_pos hnil]
    exact passwdPath_inside cfg dir
  · exact hkeep hnil

theorem rawLines_cons {line : Text} (hline : '\n' ∉ line) (rest : Text) :
    rawLines (line ++ '\n' :: rest) = line :: rawLines rest := by
  have hne := List.splitOn_ne_nil '\n' rest
  simp only [rawLines, List.splitOn_append_cons_self_of_not_mem hline,
    List.getLast?_cons, List.getLast?_eq_some_getLast hne, Option.getD_some,
    List.dropLast_cons_of_ne_nil hne]
  split_ifs <;> rfl

theorem rawLines_single {line : Text} (hline : '\n' ∉ line) :
    rawLines line = if line = [] then [] else [line] := by
  simp only [rawLines, List.splitOn_eq_singleton hline, List.getLast?_singleton,
    Option.some.injEq, List.dropLast_singleton]

/-- Lines that can be written to the table. -/
def Writable (lines : List Text) : Prop :=
  ∀ line ∈ lines, line ≠ [] ∧ trimSpaceChars line = line ∧ '\n' ∉ line

theorem joinLines_cons {line : Text} {lines : List Text} (h : Writable (line :: lines)) :
    joinLines (line :: lines) = line ++ '\n' :: joinLines lines := by
  have hline := (h line List.mem_cons_self).1
  cases lines with
  | nil => simp [joinLines, hline]
  | cons next lines =>
      have hnext := (h next (by simp)).1
      simp [joinLines, List.intercalate_cons_cons, intercalate_flatMap, hnext]

/-- The entries of a text. -/
def textRows (text : Text) : List Row :=
  (((rawLines text).map trimSpaceChars).filter isContent).filterMap parseFstabLine

/-- The words of a beginning of a text are a beginning of its words, but for the last one. -/
theorem fieldsLoop_append (word p q : Text) : ∃ pre cut whole,
    fieldsLoop word p = pre ++ cut ∧ fieldsLoop word (p ++ q) = pre ++ whole ∧
      cut.length ≤ 1 ∧ cut.length ≤ whole.length := by
  induction p generalizing word with
  | nil =>
      refine ⟨[], fieldsLoop word [], fieldsLoop word q, rfl, rfl, ?_⟩
      rw [fieldsLoop]
      split_ifs with hword
      · simp
      · have := List.length_pos_iff.mpr (fieldsLoop_ne_nil (s := q) (.inl hword))
        simp only [List.length_singleton]
        omega
  | cons c p ih =>
      rw [List.cons_append, fieldsLoop, fieldsLoop]
      split_ifs with hc hword
      · exact ih []
      · obtain ⟨pre, cut, whole, hcut, hwhole, hlength⟩ := ih []
        exact ⟨word.reverse :: pre, cut, whole, by rw [hcut]; rfl, by rw [hwhole]; rfl, hlength⟩
      · exact ih (c :: word)

/-- A line of an entry that is cut off keeps all its columns but the last. -/
theorem parse_of_cut {p q : Text} {row : Row} (hsix : (fields (p ++ q)).length ≤ 6)
    (h : parseFstabLine p = some row) : ∃ whole, parseFstabLine (p ++ q) = some whole ∧
      whole.type = row.type ∧ whole.options = row.options := by
  have hrow : fields p = row.columns := by
    rw [parseFstabLine] at h
    split at h
    · next heq =>
      rw [heq, ← Option.some.inj h]
      rfl
    · cases h
  obtain ⟨pre, cut, whole, hcut, hwhole, hone, hle⟩ := fieldsLoop_append [] p q
  rw [← fields] at hcut hwhole
  rw [hrow] at hcut
  have hlength := congrArg List.length hcut
  rw [hwhole, List.length_append] at hsix
  simp only [Row.columns, List.length_cons, List.length_nil, List.length_append] at hlength
  cases cut with
  | nil =>
      have hnil : whole = [] := List.eq_nil_of_length_eq_zero (by simp at hlength; omega)
      rw [List.append_nil] at hcut
      rw [hnil, List.append_nil, ← hcut] at hwhole
      exact ⟨row, by rw [parseFstabLine, hwhole]; rfl, rfl, rfl⟩
  | cons c cut =>
      have hcutnil : cut = [] := List.eq_nil_of_length_eq_zero (by simpa using hone)
      rw [hcutnil] at hcut hlength
      simp only [List.length_cons, List.length_nil] at hlength
      have hlast : whole.length = 1 := by
        simp only [List.length_cons] at hle
        omega
      obtain ⟨w, rfl⟩ := List.length_eq_one_iff.mp hlast
      have hsplit : [row.device, row.dir, row.type, row.options, row.dump] ++ [row.fsck] =
          pre ++ [c] := hcut
      obtain ⟨rfl, -⟩ := List.append_inj' hsplit rfl
      exact ⟨{ row with fsck := w }, by rw [parseFstabLine, hwhole]; rfl, rfl, rfl⟩

theorem secretFiles_append (cfg : Config) (rows more : List Row) :
    secretFiles cfg (rows ++ more) = secretFiles cfg rows ++ secretFiles cfg more :=
  List.filterMap_append

theorem textRows_cons {line : Text} (hline : '\n' ∉ line) (rest : Text) :
    textRows (line ++ '\n' :: rest) = textRows line ++ textRows rest := by
  rw [textRows, textRows, textRows, rawLines_cons hline, rawLines_single hline]
  split_ifs with hnil
  · have hblank : isContent (trimSpaceChars []) = false := by decide
    simp [hnil, hblank]
  · rw [← List.filterMap_append, ← List.filter_append, ← List.map_append, List.singleton_append]

/-- The part of a line that was written names the file of the line, or none. -/
theorem secretFiles_cut {cfg : Config} {line part : Text} (hline : Writable [line])
    (hpart : part <+: line) (hcut : part ≠ line → (fields line).length ≤ 6) :
    (secretFiles cfg (textRows part)).Sublist
      (secretFiles cfg ([line].filterMap parseFstabLine)) := by
  obtain ⟨hne, htrim, hnewline⟩ := hline line List.mem_cons_self
  have hshort : '\n' ∉ part := fun hm => hnewline (hpart.subset hm)
  rw [textRows, rawLines_single hshort]
  split_ifs with hnil
  · exact List.nil_sublist _
  · by_cases hcontent : isContent (trimSpaceChars part) = true
    · -- Nothing stands before the line, so that only the end of the part is trimmed.
      have hpre : trimSpaceChars part <+: line := by
        have hhead : ¬ part.head?.any isSpace := by
          have hsame : part.head? = line.head? := by
            obtain ⟨rest, rfl⟩ := hpart
            rw [List.head?_append_of_ne_nil _ hnil]
          rw [hsame, ← htrim]
          exact trimSpaceChars_head line
        have hdrop : part.dropWhile isSpace = part := by
          cases part with
          | nil => rfl
          | cons c part => exact List.dropWhile_cons_of_neg (by simpa using hhead)
        rw [trimSpaceChars, hdrop]
        exact (List.rdropWhile_prefix isSpace part).trans hpart
      cases hparse : parseFstabLine (trimSpaceChars part) with
      | none =>
          rw [List.map_singleton, List.filter_cons_of_pos hcontent]
          simp [hparse, secretFiles]
      | some row =>
          obtain ⟨rest, hrest⟩ := hpre
          obtain ⟨whole, hwhole, htype, hoptions⟩ : ∃ whole,
              parseFstabLine line = some whole ∧ whole.type = row.type ∧
                whole.options = row.options := by
            by_cases hfull : part = line
            · rw [hfull, htrim] at hparse
              exact ⟨row, hparse, rfl, rfl⟩
            · have hsix := hcut hfull
              rw [← hrest] at hsix ⊢
              exact parse_of_cut hsix hparse
          have hsame : credential cfg whole = credential cfg row := by
            rw [credential, credential, htype, hoptions]
          rw [List.map_singleton, List.filter_cons_of_pos hcontent]
          simp [hparse, hwhole, secretFiles, List.filterMap_cons, hsame]
    · rw [List.map_singleton, List.filter_cons_of_neg (by simpa using hcontent)]
      exact List.nil_sublist _

/-- A table that was cut off names no other credential files than the whole one. -/
theorem secretFiles_take {cfg : Config} {lines : List Text} {n : ℕ} (hw : Writable lines)
    (hcut : n < (joinLines lines).length → ∀ line ∈ lines, (fields line).length ≤ 6) :
    (secretFiles cfg (textRows ((joinLines lines).take n))).Sublist
      (secretFiles cfg (lines.filterMap parseFstabLine)) := by
  induction lines generalizing n with
  | nil =>
      have hnil : textRows ((joinLines []).take n) = [] := by
        rw [show joinLines [] = [] from rfl, List.take_nil]
        decide
      rw [hnil]
      exact List.nil_sublist _
  | cons line lines ih =>
      have hone : Writable [line] := fun l hl =>
        hw l (List.mem_singleton.mp hl ▸ List.mem_cons_self)
      have hrest : Writable lines := fun l hl => hw l (List.mem_cons_of_mem line hl)
      have hnewline := (hone line List.mem_cons_self).2.2
      rw [← List.singleton_append, List.filterMap_append, secretFiles_append, List.singleton_append,
        joinLines_cons hw]
      rw [joinLines_cons hw, List.length_append, List.length_cons] at hcut
      by_cases hn : n ≤ line.length
      · rw [List.take_append_of_le_length hn]
        have hsix : (fields line).length ≤ 6 := hcut (by omega) line List.mem_cons_self
        exact (secretFiles_cut hone (List.take_prefix n line) fun _ => hsix).trans
          (List.sublist_append_left _ _)
      · obtain ⟨m, rfl⟩ : ∃ m, n = line.length + (m + 1) := ⟨n - line.length - 1, by omega⟩
        rw [List.take_length_add_append, List.take_succ_cons, textRows_cons hnewline,
          secretFiles_append]
        refine List.Sublist.append ?_ (ih hrest fun hlt l hl => ?_)
        · exact secretFiles_cut hone (List.prefix_refl line) fun hne => absurd rfl hne
        · exact hcut (by omega) l (List.mem_cons_of_mem line hl)

/-- After a write the table names no other credential files than the lines written,
and if nothing was written, the ones it named before. -/
theorem writeLines_secrets (cfg : Config) (disk : Disk) (s : MountState) {lines : List Text}
    (hw : Writable lines)
    (hcut : (∃ written, disk = .writeFails written) → ∀ line ∈ lines, (fields line).length ≤ 6) :
    (writeLines disk s lines).1.files = s.files ∧
      ((writeLines disk s lines).1.fstab = s.fstab ∨
        (secretFiles cfg (mounts (writeLines disk s lines).1)).Sublist
          (secretFiles cfg (lines.filterMap parseFstabLine))) := by
  have hwhole : (secretFiles cfg (textRows (joinLines lines))).Sublist
      (secretFiles cfg (lines.filterMap parseFstabLine)) := by
    have hfields : (joinLines lines).length < (joinLines lines).length →
        ∀ line ∈ lines, (fields line).length ≤ 6 := fun hlt => absurd hlt (Nat.lt_irrefl _)
    rw [← List.take_length (l := joinLines lines)]
    exact secretFiles_take hw hfields
  cases disk with
  | mkdirFails => exact ⟨rfl, .inl rfl⟩
  | writeFails written => exact ⟨rfl, .inr (secretFiles_take hw fun _ => hcut ⟨written, rfl⟩)⟩
  | sound | readFails | secretFails left | removeFails => exact ⟨rfl, .inr hwhole⟩

/-- The lines of a table can be written to it again. -/
theorem writable_of_readLines {disk : Disk} {s : MountState} {lines : List Text}
    (h : readLines disk s = .ok lines) : Writable lines := by
  intro line hline
  obtain ⟨hnewline, htrim, hcontent, -⟩ := cleanLine_of_readLines h line hline
  refine ⟨?_, htrim, hnewline⟩
  rintro rfl
  exact absurd hcontent (by decide)

theorem writable_formatEntry {row : Row} (h : row.Trimmed) : Writable [formatEntry row] := by
  simp only [Row.Trimmed, Row.columns, List.forall_mem_cons] at h
  obtain ⟨⟨hne, htrim, hnewline⟩, h2, h3, h4, h5, ⟨hne6, htrim6, hnewline6⟩, -⟩ := h
  intro line hline
  obtain rfl := List.mem_singleton.mp hline
  have hhead := trimSpaceChars_head row.device
  have hlast := trimSpaceChars_last row.fsck
  rw [htrim] at hhead
  rw [htrim6] at hlast
  rw [formatEntry_eq]
  refine ⟨by simp, trimSpaceChars_eq_self ?_ ?_, ?_⟩
  · rwa [List.head?_append_of_ne_nil _ hne]
  · simpa [List.getLast?_append, List.getLast?_cons, List.getLast?_eq_some_getLast hne6]
      using hlast
  · simp [hnewline, h2.2.2, h3.2.2, h4.2.2, h5.2.2, hnewline6]

/-- The new line of an entry names the file of the entry, or none. -/
theorem secretFiles_formatEntry {cfg : Config} {row : Row} (h : row.Trimmed) :
    (secretFiles cfg ([formatEntry row].filterMap parseFstabLine)).Sublist
      (secretFiles cfg [row]) := by
  cases hparse : parseFstabLine (formatEntry row) with
  | none => simp [hparse, secretFiles]
  | some found =>
      rw [parse_trimmed h hparse] at hparse
      simp [hparse]

/-- What a call that prepares an entry does to the files. -/
theorem keepsApart_prepare {cfg : Config} {s : MountState} (disk : Disk) {entry : Entry}
    (call : MountCall) {requireKeys : Bool}
    (hfresh : ∀ path, usedPath cfg entry (call.kept s) requireKeys = some path →
      FreshPath cfg s call path)
    (file : List Text)
    (h : (prepare cfg disk s entry (call.kept s) requireKeys).1.files file ≠ s.files file) :
    Inside cfg file ∧ file ∉ secretFiles cfg (call.others s) := by
  obtain ⟨path, hpath, rfl⟩ := prepare_files h
  obtain ⟨-, -, hother, hinside⟩ := hfresh path hpath
  rw [eq_chosen_of_usedPath hpath] at hother hinside ⊢
  exact ⟨chosen_inside hinside, hother⟩

/-- The file of a prepared entry is its own. -/
theorem apart_prepare {cfg : Config} {s : MountState} {disk : Disk} {entry : Entry}
    (call : MountCall) {requireKeys : Bool} {row : Row}
    (hfresh : ∀ path, usedPath cfg entry (call.kept s) requireKeys = some path →
      FreshPath cfg s call path)
    (hprepare : (prepare cfg disk s entry (call.kept s) requireKeys).2 = .ok row)
    (h : Apart cfg (secretFiles cfg (call.others s))) :
    Apart cfg (secretFiles cfg (row :: call.others s)) := by
  rw [secretFiles, List.filterMap_cons]
  cases hfile : credential cfg row with
  | none => exact h
  | some file =>
      obtain ⟨path, hpath, hname⟩ := credential_of_prepare hprepare hfile
      obtain ⟨hcomma, hlast, hother, hinside⟩ := hfresh path hpath
      obtain rfl := hname hcomma hlast
      refine ⟨List.nodup_cons.mpr ⟨hother, h.1⟩, ?_⟩
      intro file hfile
      rcases List.mem_cons.mp hfile with rfl | hfile
      · rw [eq_chosen_of_usedPath hpath] at hinside ⊢
        exact chosen_inside hinside
      · exact h.2 file hfile

theorem Apart.perm {cfg : Config} {files other : List (List Text)} (h : Apart cfg files)
    (hperm : other.Perm files) : Apart cfg other :=
  ⟨hperm.nodup_iff.mpr h.1, fun file hfile => h.2 file (hperm.mem_iff.mp hfile)⟩

/-- A table with a new line between two parts of the old one. -/
theorem apart_inserted {cfg : Config} {row : Row} {pre post : List Text} (hrow : row.Trimmed)
    (h : Apart cfg (secretFiles cfg (row :: (pre ++ post).filterMap parseFstabLine))) :
    Apart cfg (secretFiles cfg ((pre ++ formatEntry row :: post).filterMap parseFstabLine)) := by
  have hperm : (secretFiles cfg (pre.filterMap parseFstabLine) ++ (secretFiles cfg [row] ++
      secretFiles cfg (post.filterMap parseFstabLine))).Perm
      (secretFiles cfg (row :: (pre ++ post).filterMap parseFstabLine)) := by
    have hcons := secretFiles_append cfg [row] ((pre ++ post).filterMap parseFstabLine)
    rw [List.singleton_append] at hcons
    rw [hcons, List.filterMap_append, secretFiles_append, ← List.append_assoc, ← List.append_assoc]
    exact List.perm_append_comm.append_right _
  refine (h.perm hperm).sublist ?_
  rw [← List.singleton_append, List.filterMap_append, List.filterMap_append, secretFiles_append,
    secretFiles_append]
  exact ((secretFiles_formatEntry hrow).append_right _).append_left _

theorem writable_inserted {row : Row} {pre : List Text} (post : List Text) (hrow : row.Trimmed)
    (h : Writable (pre ++ post)) : Writable (pre ++ formatEntry row :: post) := by
  intro line hline
  rcases List.mem_append.mp hline with hline | hline
  · exact h line (List.mem_append_left _ hline)
  · rcases List.mem_cons.mp hline with rfl | hline
    · exact writable_formatEntry hrow _ List.mem_cons_self
    · exact h line (List.mem_append_right _ hline)

theorem isolated_add {cfg : Config} {s : MountState} {disk : Disk} {entry : Entry}
    (h : Isolated cfg s) (hsep : Separate cfg s (disk, .add entry)) :
    Isolated cfg (add cfg disk s entry).1 ∧ KeepsApart cfg s (disk, .add entry) := by
  have hfiles := keepsApart_prepare disk (.add entry) hsep.1
  have hfstab := prepare_fstab cfg disk s entry [] true
  have hread := readLines_congr disk hfstab
  have hunread : Isolated cfg (prepare cfg disk s entry [] true).1 := by
    rw [Isolated, mounts_congr hfstab]
    exact h
  have hrun : ∀ file, (MountCall.run cfg disk s (.add entry)).1.files file =
      (add cfg disk s entry).1.files file := fun _ => rfl
  rw [KeepsApart]
  simp only [hrun]
  cases hprepare : (prepare cfg disk s entry [] true).2 with
  | error err =>
      simp only [add, hprepare]
      exact ⟨hunread, hfiles⟩
  | ok row =>
      cases hlines : readLines disk s with
      | error err =>
          simp only [add, hprepare, hread, hlines]
          exact ⟨hunread, hfiles⟩
      | ok lines =>
          by_cases hconflict : lines.any (lineIsAt row.device row.dir) = true
          · simp only [add, hprepare, hread, hlines, if_pos hconflict]
            exact ⟨hunread, hfiles⟩
          · simp only [add, hprepare, hread, hlines, if_neg hconflict]
            obtain ⟨raw, hraw⟩ := normalized_of_prepare hprepare
            have hrow := trimmed_of_normalized hraw
            have hmounts : mounts s = (lines ++ []).filterMap parseFstabLine := by
              rw [List.append_nil, mounts, eq_tableLines hlines]
            have hwritable := writable_inserted [] hrow
              ((List.append_nil lines).symm ▸ writable_of_readLines hlines)
            have happart := apart_prepare (.add entry) hsep.1 hprepare h
            obtain ⟨hsame, hkeep | hnew⟩ := writeLines_secrets cfg disk
              (prepare cfg disk s entry [] true).1 hwritable (by
                intro hcut line hline
                obtain ⟨hold, hnew⟩ := hsep.2 hcut
                rcases List.mem_append.mp hline with hline | hline
                · exact hold line (eq_tableLines hlines ▸ hline)
                · exact List.mem_singleton.mp hline ▸ hnew row hprepare)
            · refine ⟨?_, fun file hfile => hfiles file (hsame ▸ hfile)⟩
              rw [Isolated, mounts_congr hkeep]
              exact hunread
            · refine ⟨?_, fun file hfile => hfiles file (hsame ▸ hfile)⟩
              refine (apart_inserted hrow ?_).sublist hnew
              rw [← hmounts]
              exact happart

/-- What is left of the entries when the first one at a place is taken out. -/
theorem eraseP_mounts {device dir line : Text} {pre post : List Text}
    (hat : lineIsAt device dir line = true) (hpre : ∀ l ∈ pre, lineIsAt device dir l = false) :
    ((pre ++ line :: post).filterMap parseFstabLine).eraseP (Row.isAt device dir) =
      (pre ++ post).filterMap parseFstabLine := by
  obtain ⟨old, hold, hpair⟩ := lineIsAt_iff.mp hat
  have hnever : ∀ r ∈ pre.filterMap parseFstabLine, ¬ Row.isAt device dir r = true := by
    intro r hr
    obtain ⟨l, hl, hlr⟩ := List.mem_filterMap.mp hr
    have hnot := hpre l hl
    rw [lineIsAt, hlr, Option.any_some] at hnot
    simp [hnot]
  rw [List.filterMap_append, List.filterMap_cons_some hold, List.eraseP_append_right _ hnever,
    List.eraseP_cons_of_pos (isAt_iff.mpr hpair), List.filterMap_append]

theorem isolated_update {cfg : Config} {s : MountState} {disk : Disk} {oldDevice oldDir : Text}
    {entry : Entry} (h : Isolated cfg s)
    (hsep : Separate cfg s (disk, .update oldDevice oldDir entry)) :
    Isolated cfg (update cfg disk s oldDevice oldDir entry).1 ∧
      KeepsApart cfg s (disk, .update oldDevice oldDir entry) := by
  have hrun : ∀ file, (MountCall.run cfg disk s (.update oldDevice oldDir entry)).1.files file =
      (update cfg disk s oldDevice oldDir entry).1.files file := fun _ => rfl
  rw [KeepsApart]
  simp only [hrun]
  cases hlookup : validateLookupFields oldDevice oldDir with
  | some err =>
      simp only [update, hlookup]
      exact ⟨h, fun file hfile => absurd rfl hfile⟩
  | none =>
      cases hlines : readLines disk s with
      | error err =>
          simp only [update, hlookup, hlines]
          exact ⟨h, fun file hfile => absurd rfl hfile⟩
      | ok lines =>
          have htable := eq_tableLines hlines
          have hkept : keptPasswd lines oldDevice oldDir =
              MountCall.kept s (.update oldDevice oldDir entry) := by
            rw [MountCall.kept, htable]
          have hfresh : ∀ path, usedPath cfg entry
              (MountCall.kept s (.update oldDevice oldDir entry)) false = some path →
                FreshPath cfg s (.update oldDevice oldDir entry) path := by
            intro path hpath
            refine hsep.1 path ?_
            rw [MountCall.usedPath, if_pos hlookup]
            exact hpath
          have haccepted : accepted cfg disk s (.update oldDevice oldDir entry) =
              (prepare cfg disk s entry
                (MountCall.kept s (.update oldDevice oldDir entry)) false).2 := by
            simp only [accepted, hlines, hkept]
          have hfiles := keepsApart_prepare disk _ hfresh
          have hfstab := prepare_fstab cfg disk s entry
            (MountCall.kept s (.update oldDevice oldDir entry)) false
          have hunread : Isolated cfg (prepare cfg disk s entry
              (MountCall.kept s (.update oldDevice oldDir entry)) false).1 := by
            rw [Isolated, mounts_congr hfstab]
            exact h
          cases hprepare : (prepare cfg disk s entry
              (MountCall.kept s (.update oldDevice oldDir entry)) false).2 with
          | error err =>
              simp only [update, hlookup, hlines, hkept, hprepare]
              exact ⟨hunread, hfiles⟩
          | ok row =>
              cases hreplace : replaceFirst oldDevice oldDir (formatEntry row) lines with
              | none =>
                  simp only [update, hlookup, hlines, hkept, hprepare, hreplace]
                  exact ⟨hunread, hfiles⟩
              | some after =>
                  simp only [update, hlookup, hlines, hkept, hprepare, hreplace]
                  obtain ⟨pre, line, post, rfl, hat, hpre, rfl⟩ := replaceFirst_eq_some hreplace
                  obtain ⟨raw, hraw⟩ := normalized_of_prepare hprepare
                  have hrow := trimmed_of_normalized hraw
                  have hothers : MountCall.others s (.update oldDevice oldDir entry) =
                      (pre ++ post).filterMap parseFstabLine := by
                    rw [MountCall.others, mounts, ← htable, eraseP_mounts hat hpre]
                  have hapart : Apart cfg (secretFiles cfg
                      (MountCall.others s (.update oldDevice oldDir entry))) :=
                    Apart.sublist h ((List.eraseP_sublist).filterMap _)
                  have hwritable : Writable (pre ++ formatEntry row :: post) := by
                    refine writable_inserted post hrow fun l hl => ?_
                    refine writable_of_readLines hlines l ?_
                    rcases List.mem_append.mp hl with hl | hl
                    · exact List.mem_append_left _ hl
                    · exact List.mem_append_right _ (List.mem_cons_of_mem line hl)
                  obtain ⟨hsame, hkeep | hnew⟩ := writeLines_secrets cfg disk
                    (prepare cfg disk s entry
                      (MountCall.kept s (.update oldDevice oldDir entry)) false).1 hwritable (by
                      intro hcut l hl
                      obtain ⟨hold, hnew⟩ := hsep.2 hcut
                      rw [← htable] at hold
                      rcases List.mem_append.mp hl with hl | hl
                      · exact hold l (List.mem_append_left _ hl)
                      · rcases List.mem_cons.mp hl with rfl | hl
                        · exact hnew row (haccepted.trans hprepare)
                        · exact hold l (List.mem_append_right _ (List.mem_cons_of_mem line hl)))
                  · refine ⟨?_, fun file hfile => hfiles file (hsame ▸ hfile)⟩
                    rw [Isolated, mounts_congr hkeep]
                    exact hunread
                  · refine ⟨?_, fun file hfile => hfiles file (hsame ▸ hfile)⟩
                    refine (apart_inserted hrow ?_).sublist hnew
                    rw [← hothers]
                    exact apart_prepare _ hfresh hprepare hapart

/-- A file that is removed is the credential file of an entry that is deleted. -/
theorem dropSecrets_files {cfg : Config} {disk : Disk} {removed : List Row} {s : MountState}
    {file : List Text} (h : (removed.foldl (dropSecret cfg disk) s).files file ≠ s.files file) :
    ∃ row ∈ removed, credential cfg row = some file := by
  induction removed generalizing s with
  | nil => exact absurd rfl h
  | cons row removed ih =>
      rw [List.foldl_cons] at h
      by_cases hrest : (removed.foldl (dropSecret cfg disk) (dropSecret cfg disk s row)).files file =
          (dropSecret cfg disk s row).files file
      · rw [hrest] at h
        refine ⟨row, List.mem_cons_self, ?_⟩
        simp only [dropSecret, removePasswdFromOptions] at h
        split_ifs at h with htype hpath
        · rw [credential, if_pos ⟨htype, hpath.1⟩, setFile_files_ne h]
        · exact absurd rfl h
        · exact absurd rfl h
      · obtain ⟨found, hfound, hfile⟩ := ih hrest
        exact ⟨found, List.mem_cons_of_mem row hfound, hfile⟩

/-- Two entries that name one file are one entry, when the files differ. -/
theorem eq_of_credential {cfg : Config} {rows : List Row} (h : (secretFiles cfg rows).Nodup)
    {a b : Row} (ha : a ∈ rows) (hb : b ∈ rows) {file : List Text}
    (hfa : credential cfg a = some file) (hfb : credential cfg b = some file) : a = b := by
  induction rows with
  | nil => cases ha
  | cons row rows ih =>
      rw [secretFiles, List.filterMap_cons] at h
      rcases List.mem_cons.mp ha with rfl | harest
      · rcases List.mem_cons.mp hb with rfl | hbrest
        · rfl
        · rw [hfa] at h
          exact absurd (List.mem_filterMap.mpr ⟨b, hbrest, hfb⟩) (List.nodup_cons.mp h).1
      · rcases List.mem_cons.mp hb with rfl | hbrest
        · rw [hfb] at h
          exact absurd (List.mem_filterMap.mpr ⟨a, harest, hfa⟩) (List.nodup_cons.mp h).1
        · refine ih ?_ harest hbrest
          cases hrow : credential cfg row with
          | none =>
              rw [hrow] at h
              exact h
          | some f =>
              rw [hrow] at h
              exact (List.nodup_cons.mp h).2

theorem isolated_delete {cfg : Config} {s : MountState} {disk : Disk} {device dir : Text}
    (h : Isolated cfg s) (hsep : Separate cfg s (disk, .delete device dir)) :
    Isolated cfg (delete cfg disk s device dir).1 ∧
      KeepsApart cfg s (disk, .delete device dir) := by
  have hrun : ∀ file, (MountCall.run cfg disk s (.delete device dir)).1.files file =
      (delete cfg disk s device dir).1.files file := fun _ => rfl
  rw [KeepsApart]
  simp only [hrun]
  cases hlookup : validateLookupFields device dir with
  | some err =>
      simp only [delete, hlookup]
      exact ⟨h, fun file hfile => absurd rfl hfile⟩
  | none =>
      cases hlines : readLines disk s with
      | error err =>
          simp only [delete, hlookup, hlines]
          exact ⟨h, fun file hfile => absurd rfl hfile⟩
      | ok lines =>
          have htable := eq_tableLines hlines
          have hmounts : lines.filterMap parseFstabLine = mounts s := by rw [mounts, htable]
          by_cases hremoved : (lines.filterMap parseFstabLine).filter (Row.isAt device dir) = []
          · simp only [delete, hlookup, hlines, hremoved, if_true]
            exact ⟨h, fun file hfile => absurd rfl hfile⟩
          · simp only [delete, hlookup, hlines, if_neg hremoved]
            have hfstab := dropSecrets_fstab cfg disk
              ((lines.filterMap parseFstabLine).filter (Row.isAt device dir)) s
            have hfiles : ∀ file, (((lines.filterMap parseFstabLine).filter
                (Row.isAt device dir)).foldl (dropSecret cfg disk) s).files file ≠ s.files file →
                  Inside cfg file ∧
                    file ∉ secretFiles cfg (MountCall.others s (.delete device dir)) := by
              intro file hfile
              obtain ⟨row, hrow, hname⟩ := dropSecrets_files hfile
              rw [hmounts] at hrow
              obtain ⟨hmem, hat⟩ := List.mem_filter.mp hrow
              refine ⟨h.2 file (List.mem_filterMap.mpr ⟨row, hmem, hname⟩), fun hother => ?_⟩
              obtain ⟨other, hin, hothername⟩ := List.mem_filterMap.mp hother
              obtain ⟨hinmounts, hpair⟩ := List.mem_filter.mp hin
              obtain rfl := eq_of_credential h.1 hmem hinmounts hname hothername
              simp [isAt_iff.mp hat] at hpair
            have hsub : (lines.filter fun line => ¬ lineIsAt device dir line).Sublist lines :=
              List.filter_sublist
            have hwritable : Writable (lines.filter fun line => ¬ lineIsAt device dir line) :=
              fun line hline => writable_of_readLines hlines line (hsub.subset hline)
            obtain ⟨hsame, hkeep | hnew⟩ := writeLines_secrets cfg disk
              (((lines.filterMap parseFstabLine).filter
                (Row.isAt device dir)).foldl (dropSecret cfg disk) s) hwritable
              (fun hcut line hline => (hsep.2 hcut).1 line (htable ▸ hsub.subset hline))
            · refine ⟨?_, fun file hfile => hfiles file (hsame ▸ hfile)⟩
              rw [Isolated, mounts_congr (hkeep.trans hfstab)]
              exact h
            · refine ⟨?_, fun file hfile => hfiles file (hsame ▸ hfile)⟩
              refine Apart.sublist h (hnew.trans ?_)
              rw [← hmounts]
              exact (hsub.filterMap _).filterMap _

theorem isolated_step {cfg : Config} {s : MountState} {a : Disk × MountCall}
    (h : Isolated cfg s) (hsep : Separate cfg s a) :
    Isolated cfg (a.2.run cfg a.1 s).1 ∧ KeepsApart cfg s a := by
  obtain ⟨disk, call⟩ := a
  cases call with
  | add entry => exact isolated_add h hsep
  | update oldDevice oldDir entry => exact isolated_update h hsep
  | delete device dir => exact isolated_delete h hsep

/-- From a table without entries the mounts keep their credentials to themselves
in every run in which no call uses the path of another mount. -/
theorem secrets_isolated (cfg : Config) (s : MountState) (calls : List (Disk × MountCall))
    (hempty : mounts s = []) (h : Guarded (step cfg) (Separate cfg) s calls) :
    Along (step cfg) (Isolated cfg) s calls ∧ Guarded (step cfg) (KeepsApart cfg) s calls := by
  have hinit : Isolated cfg s := by
    rw [Isolated, hempty]
    exact ⟨List.nodup_nil, fun file hfile => absurd hfile List.not_mem_nil⟩
  have halong : Along (step cfg) (Isolated cfg) s calls := by
    refine along_of_guarded (fun t a u ht ha hu => ?_) hinit h
    rw [← Option.some.inj hu]
    exact (isolated_step ht ha).1
  have hstep : ∀ t, Isolated cfg t → ∀ a, Separate cfg t a → KeepsApart cfg t a :=
    fun t ht a ha => (isolated_step ht ha).2
  refine ⟨halong, ?_⟩
  have hkeeps : Guarded (step cfg) (fun t a => Separate cfg t a → KeepsApart cfg t a) s calls :=
    halong.guarded fun t a ht => hstep t ht a
  exact Guarded.mono (fun t a ha => ha.1 ha.2) (hkeeps.and h)

instance (cfg : Config) (s : MountState) (a : Disk × MountCall) : Decidable (Cuttable cfg s a) :=
  inferInstanceAs (Decidable (_ ∧ _))

instance (disk : Disk) : Decidable (∃ written, disk = .writeFails written) :=
  decidable_of_iff (¬ ∀ written, disk ≠ .writeFails written) (by simp)

instance (priority := low) decidableOfSome {α : Type*} (x : Option α) (p : α → Prop) [∀ a, Decidable (p a)] :
    Decidable (∀ a, x = some a → p a) :=
  match x with
  | none => .isTrue fun _ h => by cases h
  | some a => decidable_of_iff (p a) ⟨fun h b hb => Option.some.inj hb ▸ h, fun h => h a rfl⟩

instance (cfg : Config) (s : MountState) (a : Disk × MountCall) : Decidable (Separate cfg s a) :=
  inferInstanceAs (Decidable (_ ∧ _))

/-- A bucket that is mounted in a directory. -/
def bucketEntry (bucket dir : String) : Entry :=
  ⟨⟨[], dir.toList, "s3".toList, [], [], []⟩,
    some ⟨bucket.toList, [], [], "key".toList, "secret".toList, false⟩⟩

theorem secrets_isolated_buckets :
    Along (step rootConfig) (Isolated rootConfig) emptyTable
        [(.sound, .add (bucketEntry "photos" "/mnt/a")), (.writeFails 100,
          .add (bucketEntry "videos" "/mnt/b")), (.sound, .delete "photos".toList "/mnt/a".toList)] ∧
      Guarded (step rootConfig) (KeepsApart rootConfig) emptyTable
        [(.sound, .add (bucketEntry "photos" "/mnt/a")), (.writeFails 100,
          .add (bucketEntry "videos" "/mnt/b")), (.sound, .delete "photos".toList "/mnt/a".toList)] :=
  secrets_isolated rootConfig emptyTable _ (by decide) (by decide)

/-- Mounts in `/mnt/a/b` and `/mnt/a-b` have one credential file. -/
theorem dash_and_slash_share : ¬ Along (step rootConfig) (Isolated rootConfig) emptyTable
    [(.sound, .add (bucketEntry "photos" "/mnt/a/b")),
      (.sound, .add (bucketEntry "videos" "/mnt/a-b"))] := by
  intro h
  have hlast := h.last rfl
  exact absurd hlast (by decide)

end GoSite.Mounts
