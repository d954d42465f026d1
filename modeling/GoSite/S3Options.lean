import GoSite.DumpConfinement
import GoSite.MountSecrets

/-!
# Reading S3 options back

The options of an S3 mount are one column of the table, joined with commas. They
are read back by splitting the column at its commas, so a text that has one
itself is cut there and what follows is taken for further options.
-/
namespace GoSite.Mounts

open GoStrings Paths
open GoSite.Terminal (joinPath)

/-! ## What the readers return -/

/-- A text that is neither cut nor trimmed when it is read back. -/
def Whole (part : Text) : Prop := ',' ∉ part ∧ part.getLast?.any isSpace = false

theorem whole_of_suffix {part rest : Text} (h : Whole part) (hsuffix : rest <:+ part) :
    Whole rest := by
  obtain ⟨front, rfl⟩ := hsuffix
  refine ⟨fun hmem => h.1 (List.mem_append_right _ hmem), ?_⟩
  cases hlast : rest.getLast? with
  | none => rfl
  | some c =>
      have hfull := h.2
      rw [List.getLast?_append, hlast] at hfull
      exact hfull

theorem whole_of_mem_split {options part : Text}
    (h : part ∈ (options.splitOn ',').map trimSpaceChars) : Whole part := by
  obtain ⟨piece, hpiece, rfl⟩ := List.mem_map.mp h
  refine ⟨fun hmem => not_mem_of_mem_splitOn hpiece ((trimSpaceChars_sublist piece).subset hmem), ?_⟩
  simpa using trimSpaceChars_last piece

theorem parsePasswdFileOption_whole (options : Text) : Whole (parsePasswdFileOption options) := by
  unfold parsePasswdFileOption
  split
  · rename_i part hfind
    exact whole_of_suffix (whole_of_mem_split (List.mem_of_find?_eq_some hfind))
      (List.drop_suffix _ _)
  · exact ⟨List.not_mem_nil, rfl⟩

/-- Neither the endpoint nor the region that is read has a comma. -/
def CommaFree (s3 : S3Config) : Prop := ',' ∉ s3.endpoint ∧ ',' ∉ s3.region

theorem parseS3Option_commaFree {s3 : S3Config} {part : Text} (h : CommaFree s3)
    (hpart : ',' ∉ part) : CommaFree (parseS3Option s3 part) := by
  unfold parseS3Option
  split_ifs
  · exact ⟨fun hmem => hpart (List.mem_of_mem_drop hmem), h.2⟩
  · exact ⟨h.1, fun hmem => hpart (List.mem_of_mem_drop hmem)⟩
  · exact h
  · exact h

theorem parseS3Options_commaFree (options : Text) : CommaFree (parseS3Options options) := by
  have hfold : ∀ parts : List Text, (∀ part ∈ parts, ',' ∉ part) → ∀ s3, CommaFree s3 →
      CommaFree (parts.foldl parseS3Option s3) := by
    intro parts
    induction parts with
    | nil => exact fun _ _ h => h
    | cons part parts ih =>
        intro hparts s3 h
        obtain ⟨hpart, hparts⟩ := List.forall_mem_cons.mp hparts
        exact ih hparts _ (parseS3Option_commaFree h hpart)
  exact hfold _ (fun part hpart => (whole_of_mem_split hpart).1) _
    ⟨List.not_mem_nil, List.not_mem_nil⟩

/-! ## What the writer stores -/

/-- The options of an S3 mount before they are joined. -/
def s3Parts (passwd endpoint region : Text) (pathStyle : Bool) : List Text :=
  ["_netdev".toList, "allow_other".toList, passwdOption ++ passwd] ++
    (if endpoint ≠ [] then ["url=".toList ++ endpoint] else []) ++
    (if region ≠ [] then ["endpoint=".toList ++ region] else []) ++
    (if pathStyle then ["use_path_request_style".toList] else [])

/-- A text that begins and ends with characters that are no white space. -/
def Firm (part : Text) : Prop :=
  (∃ c, part.head? = some c ∧ isSpace c = false) ∧
    ∃ c, part.getLast? = some c ∧ isSpace c = false

theorem Firm.trim {part : Text} (h : Firm part) : trimSpaceChars part = part := by
  obtain ⟨⟨c, hhead, hc⟩, d, hlast, hd⟩ := h
  exact trimSpaceChars_eq_self (by simp [hhead, hc]) (by simp [hlast, hd])

/-- The name of an option with a value that is not trimmed. -/
theorem firm_append {name value : Text} (hname : Firm name)
    (hvalue : value.getLast?.any isSpace = false) : Firm (name ++ value) := by
  obtain ⟨⟨c, hhead, hc⟩, d, hlast, hd⟩ := hname
  refine ⟨⟨c, by simp [List.head?_append, hhead], hc⟩, ?_⟩
  cases hv : value.getLast? with
  | none => exact ⟨d, by simp [List.getLast?_append, hv, hlast], hd⟩
  | some e =>
      rw [hv] at hvalue
      exact ⟨e, by simp [List.getLast?_append, hv], by simpa using hvalue⟩

theorem firm_intercalate {parts : List Text} (hne : parts ≠ []) (h : ∀ part ∈ parts, Firm part) :
    Firm ([','].intercalate parts) := by
  induction parts with
  | nil => exact absurd rfl hne
  | cons part parts ih =>
      obtain ⟨hpart, hparts⟩ := List.forall_mem_cons.mp h
      cases parts with
      | nil => simpa using hpart
      | cons next parts =>
          obtain ⟨c, hhead, hc⟩ := hpart.1
          obtain ⟨d, hlast, hd⟩ := (ih (by simp) hparts).2
          rw [List.intercalate_cons_cons]
          refine ⟨⟨c, by simp [hhead], hc⟩, d, ?_, hd⟩
          rw [List.getLast?_append, hlast]
          rfl

theorem s3Parts_firm {passwd endpoint region : Text} {pathStyle : Bool}
    (hpasswd : passwd.getLast?.any isSpace = false)
    (hendpoint : endpoint.getLast?.any isSpace = false)
    (hregion : region.getLast?.any isSpace = false) :
    ∀ part ∈ s3Parts passwd endpoint region pathStyle, Firm part := by
  have hfixed : Firm "_netdev".toList ∧ Firm "allow_other".toList ∧
      Firm "use_path_request_style".toList := by
    refine ⟨⟨⟨_, rfl, ?_⟩, _, rfl, ?_⟩, ⟨⟨_, rfl, ?_⟩, _, rfl, ?_⟩, ⟨_, rfl, ?_⟩, _, rfl, ?_⟩ <;>
      decide
  have hpasswdOption : Firm (passwdOption ++ passwd) :=
    firm_append ⟨⟨_, rfl, by decide⟩, _, rfl, by decide⟩ hpasswd
  have hurl : Firm ("url=".toList ++ endpoint) :=
    firm_append ⟨⟨_, rfl, by decide⟩, _, rfl, by decide⟩ hendpoint
  have hname : Firm ("endpoint=".toList ++ region) :=
    firm_append ⟨⟨_, rfl, by decide⟩, _, rfl, by decide⟩ hregion
  intro part hpart
  simp only [s3Parts, List.mem_append, List.mem_cons, List.not_mem_nil, or_false] at hpart
  rcases hpart with (((rfl | rfl | rfl) | hpart) | hpart) | hpart
  · exact hfixed.1
  · exact hfixed.2.1
  · exact hpasswdOption
  · split_ifs at hpart
    · exact List.mem_singleton.mp hpart ▸ hurl
    · cases hpart
  · split_ifs at hpart
    · exact List.mem_singleton.mp hpart ▸ hname
    · cases hpart
  · split_ifs at hpart
    · exact List.mem_singleton.mp hpart ▸ hfixed.2.2
    · cases hpart

theorem s3Parts_no_comma {passwd endpoint region : Text} {pathStyle : Bool}
    (hpasswd : ',' ∉ passwd) (hendpoint : ',' ∉ endpoint) (hregion : ',' ∉ region) :
    ∀ part ∈ s3Parts passwd endpoint region pathStyle, ',' ∉ part := by
  have hoption : ',' ∉ passwdOption := by decide
  intro part hpart
  simp only [s3Parts, List.mem_append, List.mem_cons, List.not_mem_nil, or_false] at hpart
  rcases hpart with (((rfl | rfl | rfl) | hpart) | hpart) | hpart
  · decide
  · decide
  · simp [hoption, hpasswd]
  · split_ifs at hpart
    · rw [List.mem_singleton.mp hpart]
      simp [hendpoint]
    · cases hpart
  · split_ifs at hpart
    · rw [List.mem_singleton.mp hpart]
      simp [hregion]
    · cases hpart
  · split_ifs at hpart
    · rw [List.mem_singleton.mp hpart]
      decide
    · cases hpart

/-- The three options that are no setting. -/
theorem parseS3Option_fixed (s3 : S3Config) (passwd : Text) :
    parseS3Option s3 "_netdev".toList = s3 ∧ parseS3Option s3 "allow_other".toList = s3 ∧
      parseS3Option s3 (passwdOption ++ passwd) = s3 :=
  ⟨rfl, rfl, rfl⟩

theorem foldl_s3Parts (passwd endpoint region : Text) (pathStyle : Bool) :
    (s3Parts passwd endpoint region pathStyle).foldl parseS3Option ⟨[], [], [], [], [], false⟩ =
      ⟨[], endpoint, region, [], [], pathStyle⟩ := by
  have hurl : ∀ s3 : S3Config, s3.endpoint = [] →
      (if endpoint ≠ [] then ["url=".toList ++ endpoint] else []).foldl parseS3Option s3 =
        { s3 with endpoint := endpoint } := by
    rintro ⟨_, _, _, _, _, _⟩ rfl
    split_ifs with h
    · rfl
    · rw [not_ne_iff.mp h, List.foldl_nil]
  have hname : ∀ s3 : S3Config, s3.region = [] →
      (if region ≠ [] then ["endpoint=".toList ++ region] else []).foldl parseS3Option s3 =
        { s3 with region := region } := by
    rintro ⟨_, _, _, _, _, _⟩ rfl
    split_ifs with h
    · rfl
    · rw [not_ne_iff.mp h, List.foldl_nil]
  have hstyle : ∀ s3 : S3Config, s3.pathStyle = false →
      (if pathStyle then ["use_path_request_style".toList] else []).foldl parseS3Option s3 =
        { s3 with pathStyle := pathStyle } := by
    rintro ⟨_, _, _, _, _, _⟩ rfl
    cases pathStyle <;> rfl
  obtain ⟨hnetdev, hother, hpasswd⟩ := parseS3Option_fixed ⟨[], [], [], [], [], false⟩ passwd
  rw [s3Parts, List.foldl_append, List.foldl_append, List.foldl_append, List.foldl_cons,
    List.foldl_cons, List.foldl_cons, List.foldl_nil, hnetdev, hother, hpasswd, hurl _ rfl,
    hname _ rfl, hstyle _ rfl]

theorem s3Parts_ne_nil (passwd endpoint region : Text) (pathStyle : Bool) :
    s3Parts passwd endpoint region pathStyle ≠ [] := List.cons_ne_nil _ _

/-- Options that are whole are read back as they were joined. -/
theorem parse_s3Parts {passwd endpoint region : Text} (pathStyle : Bool) (hpasswd : Whole passwd)
    (hendpoint : Whole endpoint) (hregion : Whole region) :
    parseS3Options ([','].intercalate (s3Parts passwd endpoint region pathStyle)) =
        ⟨[], endpoint, region, [], [], pathStyle⟩ ∧
      parsePasswdFileOption ([','].intercalate (s3Parts passwd endpoint region pathStyle)) =
        passwd := by
  have hsplit := List.splitOn_intercalate ','
    (@s3Parts_no_comma passwd endpoint region pathStyle hpasswd.1 hendpoint.1 hregion.1)
    (s3Parts_ne_nil passwd endpoint region pathStyle)
  have htrim : (s3Parts passwd endpoint region pathStyle).map trimSpaceChars =
      s3Parts passwd endpoint region pathStyle := by
    rw [List.map_congr_left fun part hpart =>
      (s3Parts_firm hpasswd.2 hendpoint.2 hregion.2 part hpart).trim]
    exact List.map_id _
  constructor
  · rw [parseS3Options, hsplit, htrim, foldl_s3Parts]
  · rw [parsePasswdFileOption, hsplit, htrim]
    rfl

/-! ## The round trip -/

theorem buildS3Options_eq {cfg : Config} {s3 : S3Config} {endpoint : Text} (passwd : Text)
    (h : normalizeS3Endpoint cfg s3.endpoint = .ok endpoint) :
    buildS3Options cfg s3 passwd =
      .ok ([','].intercalate (s3Parts passwd endpoint (trimSpaceChars s3.region) s3.pathStyle)) := by
  rw [buildS3Options, h]
  rfl

theorem suffix_intercalate (init : List Text) (last : Text) (sep : Text) :
    last <:+ sep.intercalate (init ++ [last]) := by
  induction init with
  | nil => simp
  | cons first init ih =>
      cases init with
      | nil => simpa using (List.suffix_append (first ++ sep) last)
      | cons next init =>
          rw [List.cons_append, List.cons_append, List.intercalate_cons_cons]
          exact ih.trans (List.suffix_append _ _)

theorem passwdPath_last (secretsDir dir : Text) :
    (passwdPath secretsDir dir).getLast? = some 'd' := by
  have hplain := mountSecretName_plain dir
  obtain ⟨front, hsplit⟩ := @joinPath_last (mountSecretName dir) (mountSecretName dir) secretsDir []
    (List.splitOn_eq_singleton hplain.2.2.2) hplain
  have hsuffix := suffix_intercalate front (mountSecretName dir) ['/']
  rw [← hsplit, List.intercalate_splitOn] at hsuffix
  obtain ⟨before, hbefore⟩ := hsuffix
  rw [passwdPath, ← hbefore, mountSecretName, List.getLast?_append, List.getLast?_append]
  rfl

/-- The credential file of an entry is the one of its directory, or one that was
read from other options. -/
theorem chosenPasswd_last (cfg : Config) (dir old : Text) :
    (chosenPasswd cfg dir (parsePasswdFileOption old)).getLast?.any isSpace = false := by
  unfold chosenPasswd
  split_ifs
  · rw [passwdPath_last]
    decide
  · exact (parsePasswdFileOption_whole old).2

/-- An S3 entry that is accepted has the options that were built. -/
theorem prepared_options {cfg : Config} {disk : Disk} {s : MountState} {entry : Entry}
    {s3 : S3Config} {keep : Text} {requireKeys : Bool} {row : Row} {endpoint : Text}
    (htype : isS3Type entry.type = true) (hs3 : entry.s3 = some s3)
    (hendpoint : normalizeS3Endpoint cfg s3.endpoint = .ok endpoint)
    (h : (prepare cfg disk s entry keep requireKeys).2 = .ok row) :
    row.options = orDefault (trimSpaceChars ([','].intercalate
      (s3Parts (chosenPasswd cfg entry.dir keep) endpoint (trimSpaceChars s3.region)
        s3.pathStyle))) "defaults" := by
  rw [prepare, if_pos htype] at h
  simp only [applyS3Entry, hs3] at h
  split at h
  · cases h
  · split_ifs at h
    · cases h
    · split at h
      · cases h
      · rw [s3Row, buildS3Options_eq _ hendpoint] at h
        exact (normalized_options h).2

theorem endpoint_last {cfg : Config} {text endpoint : Text}
    (hurl : ∀ text url, cfg.reparse text = some url → ∀ c ∈ url, isSpace c = false)
    (h : normalizeS3Endpoint cfg text = .ok endpoint) :
    endpoint.getLast?.any isSpace = false := by
  have hsolid : ∀ c ∈ endpoint, isSpace c = false := by
    simp only [normalizeS3Endpoint] at h
    split at h
    · cases h
      exact fun c hc => absurd hc List.not_mem_nil
    · split at h
      · cases h
      · rename_i url hparsed
        cases h
        exact hurl _ _ hparsed
  cases hlast : endpoint.getLast? with
  | none => rfl
  | some c => exact hsolid c (List.mem_of_getLast? hlast)

/-- The options name the endpoint, the region, the path style and the file that
went into them. -/
def ReadsBack (options passwd endpoint : Text) (s3 : S3Config) : Prop :=
  parseS3Options options =
      ⟨[], endpoint, trimSpaceChars s3.region, [], [], s3.pathStyle⟩ ∧
    parsePasswdFileOption options = passwd

/-- The stored options of an S3 mount are read back exactly when none of the
texts in them has a comma. A file that was read from other options has none. -/
theorem s3_options_read_back_iff (cfg : Config) (disk : Disk) (s : MountState) (entry : Entry)
    (s3 : S3Config) (oldOptions : Text) (requireKeys : Bool) (row : Row) (endpoint : Text)
    (hurl : ∀ text url, cfg.reparse text = some url → ∀ c ∈ url, isSpace c = false)
    (htype : isS3Type entry.type = true) (hs3 : entry.s3 = some s3)
    (hendpoint : normalizeS3Endpoint cfg s3.endpoint = .ok endpoint)
    (haccepted : (prepare cfg disk s entry (parsePasswdFileOption oldOptions) requireKeys).2 =
      .ok row) :
    ReadsBack row.options (chosenPasswd cfg entry.dir (parsePasswdFileOption oldOptions))
        endpoint s3 ↔
      (parsePasswdFileOption oldOptions = [] → ',' ∉ passwdPath cfg.secretsDir entry.dir) ∧
        ',' ∉ endpoint ∧ ',' ∉ s3.region := by
  have hregion : ',' ∈ trimSpaceChars s3.region ↔ ',' ∈ s3.region :=
    ⟨fun h => (trimSpaceChars_sublist _).subset h, fun h => mem_trimSpaceChars h (by decide)⟩
  constructor
  · rintro ⟨hparse, hpasswd⟩
    have hfree := parseS3Options_commaFree row.options
    rw [hparse] at hfree
    refine ⟨fun hnew => ?_, hfree.1, fun h => hfree.2 (hregion.mpr h)⟩
    have hwhole := parsePasswdFileOption_whole row.options
    rw [hpasswd, chosenPasswd, if_pos hnew] at hwhole
    exact hwhole.1
  · rintro ⟨hnew, hcomma, hfree⟩
    have hpasswd : Whole (chosenPasswd cfg entry.dir (parsePasswdFileOption oldOptions)) := by
      refine ⟨?_, chosenPasswd_last cfg entry.dir oldOptions⟩
      unfold chosenPasswd
      split_ifs with h
      · exact hnew h
      · exact (parsePasswdFileOption_whole oldOptions).1
    have hend : Whole endpoint := ⟨hcomma, endpoint_last hurl hendpoint⟩
    have hreg : Whole (trimSpaceChars s3.region) :=
      ⟨fun h => hfree (hregion.mp h), by simpa using trimSpaceChars_last s3.region⟩
    have hfirm := firm_intercalate (s3Parts_ne_nil _ _ _ _)
      (@s3Parts_firm _ _ _ s3.pathStyle hpasswd.2 hend.2 hreg.2)
    have hoptions : row.options = [','].intercalate
        (s3Parts (chosenPasswd cfg entry.dir (parsePasswdFileOption oldOptions)) endpoint
          (trimSpaceChars s3.region) s3.pathStyle) := by
      rw [prepared_options htype hs3 hendpoint haccepted, hfirm.trim, orDefault, if_neg]
      intro hnil
      obtain ⟨c, hhead, -⟩ := hfirm.1
      rw [hnil] at hhead
      cases hhead
    rw [ReadsBack, hoptions]
    exact parse_s3Parts s3.pathStyle hpasswd hend hreg

/-- Mounts with an endpoint whose URL is `https://minio:9000`. -/
def minioConfig : Config where
  cwd := ⟨[], plain_nil⟩
  secretsDir := "/s".toList
  reparse text := if text = "https://minio:9000".toList then some text else none
  secretsDir_ne := rootConfig.secretsDir_ne

theorem minioConfig_solid :
    ∀ text url, minioConfig.reparse text = some url → ∀ c ∈ url, isSpace c = false := by
  intro text url h
  have h : (if text = "https://minio:9000".toList then some text else none) = some url := h
  split_ifs at h with htext
  cases h
  rw [htext]
  decide

/-- The settings of a mount of `photos` from there. -/
def minioSettings : S3Config :=
  ⟨"photos".toList, "minio:9000".toList, "eu".toList, "key".toList, "secret".toList, true⟩

def minioEntry (dir : String) : Entry :=
  ⟨⟨[], dir.toList, "s3".toList, [], [], []⟩, some minioSettings⟩

/-- The row stored for it. -/
def minioRow (dir passwd : String) : Row :=
  ⟨"photos".toList, dir.toList, "fuse.s3fs".toList,
    "_netdev,allow_other,passwd_file=".toList ++ passwd.toList ++
      ",url=https://minio:9000,endpoint=eu,use_path_request_style".toList, "0".toList, "0".toList⟩

theorem s3_options_read_back_minio :
    ReadsBack (minioRow "/mnt/a" "/s/s3-mnt-a.passwd").options
        (chosenPasswd minioConfig "/mnt/a".toList (parsePasswdFileOption []))
        "https://minio:9000".toList minioSettings ↔
      (parsePasswdFileOption [] = [] → ',' ∉ passwdPath minioConfig.secretsDir "/mnt/a".toList) ∧
        ',' ∉ "https://minio:9000".toList ∧ ',' ∉ minioSettings.region :=
  s3_options_read_back_iff minioConfig .sound emptyTable (minioEntry "/mnt/a") minioSettings []
    true (minioRow "/mnt/a" "/s/s3-mnt-a.passwd") "https://minio:9000".toList minioConfig_solid
    (by decide) rfl (by decide) (by decide)

/-- The file of a mount in `/mnt/a.passwd,b` is read back as that of `/mnt/a`. -/
theorem comma_names_other_credentials :
    (prepare minioConfig .sound emptyTable (minioEntry "/mnt/a.passwd,b") [] true).2 =
        .ok (minioRow "/mnt/a.passwd,b" "/s/s3-mnt-a.passwd,b.passwd") ∧
      ¬ ReadsBack (minioRow "/mnt/a.passwd,b" "/s/s3-mnt-a.passwd,b.passwd").options
        "/s/s3-mnt-a.passwd,b.passwd".toList "https://minio:9000".toList minioSettings ∧
      parsePasswdFileOption (minioRow "/mnt/a.passwd,b" "/s/s3-mnt-a.passwd,b.passwd").options =
        passwdPath minioConfig.secretsDir "/mnt/a".toList := by
  refine ⟨by decide, ?_, by decide⟩
  rintro ⟨-, hpasswd⟩
  revert hpasswd
  decide

end GoSite.Mounts
