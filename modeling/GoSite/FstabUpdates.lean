import GoSite.GuardedRuns
import GoSite.MountEntries

/-!
# The mount table as a map

Lines written by the service are read back by it, and an entry survives writing
and reading when no white space of any kind is left in its fields and its device
does not look like a comment.
-/
namespace GoSite.Mounts

open GoStrings Paths GuardedRuns

/-- A column that the reader takes for one: there is no white space in it. -/
def Solid (field : Text) : Prop := field ≠ [] ∧ ∀ c ∈ field, isSpace c = false

instance (field : Text) : Decidable (Solid field) := inferInstanceAs (Decidable (_ ∧ _))

/-- An entry whose line is read back as that entry. -/
def WritesBack (row : Row) : Prop :=
  (∀ field ∈ row.columns, Solid field) ∧ row.device.head? ≠ some '#' ∧
    byteLength (formatEntry row) < maxScanTokenSize

instance (row : Row) : Decidable (WritesBack row) := inferInstanceAs (Decidable (_ ∧ _ ∧ _))

def Row.pair (row : Row) : Text × Text := (row.device, row.dir)

/-- No two entries have the same device and directory. -/
def UniquePairs (rows : List Row) : Prop := (rows.map Row.pair).Nodup

/-- The lines that are no entries. -/
def malformed (s : MountState) : Except MountError (List Text) :=
  (readLines .sound s).map fun lines => lines.filter fun line => parseFstabLine line = none

/-- The normalised entry a call puts into the table. -/
def accepted (cfg : Config) (disk : Disk) (s : MountState) : MountCall → Except MountError Row
  | .add entry => (prepare cfg disk s entry [] true).2
  | .update oldDevice oldDir entry =>
      match readLines disk s with
      | .error err => .error err
      | .ok lines => (prepare cfg disk s entry (keptPasswd lines oldDevice oldDir) false).2
  | .delete _ _ => .error .tooLong

/-- `Update` and `Delete` find the entry under its device and directory. -/
def Findable (cfg : Config) (s : MountState) (row : Row) : Prop :=
  (delete cfg .sound s row.device row.dir).2 = none ∧
    ∀ entry new, accepted cfg .sound s (.update row.device row.dir entry) = .ok new →
      (update cfg .sound s row.device row.dir entry).2 = none

/-- What a call that succeeds does to the entries. -/
def Edits (cfg : Config) (disk : Disk) (s t : MountState) (before after : List Row) :
    MountCall → Prop
  | .add entry => ∃ row, accepted cfg disk s (.add entry) = .ok row ∧ after = before ++ [row] ∧
      Findable cfg t row
  | .update oldDevice oldDir entry => ∃ row pre old post,
      accepted cfg disk s (.update oldDevice oldDir entry) = .ok row ∧
        before = pre ++ old :: post ∧ old.pair = (oldDevice, oldDir) ∧
        (oldDevice, oldDir) ∉ pre.map Row.pair ∧ after = pre ++ row :: post ∧ Findable cfg t row
  | .delete device dir => (device, dir) ∈ before.map Row.pair ∧
      after = before.filter fun row => row.pair ≠ (device, dir)

/-- A call is an update of a map: what it does when it succeeds and when it fails. -/
def MapUpdate (cfg : Config) (s : MountState) (a : Disk × MountCall) : Prop :=
  let r := a.2.run cfg a.1 s
  (r.2 ≠ none → rows r.1 = rows s) ∧
    (r.2 = none → malformed r.1 = malformed s ∧ ∃ before after, rows s = .ok before ∧
      rows r.1 = .ok after ∧ (UniquePairs before → UniquePairs after) ∧
      Edits cfg a.1 s r.1 before after a.2)

/-- The entry to be written is read back, it takes no other entry's place, and
the table is not cut off. -/
def Survives (cfg : Config) (s : MountState) (a : Disk × MountCall) : Prop :=
  (∀ written, a.1 ≠ .writeFails written) ∧ ∀ row, accepted cfg a.1 s a.2 = .ok row →
    WritesBack row ∧ match a.2 with
      | .update oldDevice oldDir _ => ∀ before, rows s = .ok before → UniquePairs before →
          row.pair ∉ (before.eraseP (Row.isAt oldDevice oldDir)).map Row.pair
      | _ => True

/-- A line as `readLines` hands it out. -/
def CleanLine (line : Text) : Prop :=
  '\n' ∉ line ∧ trimSpaceChars line = line ∧ isContent line = true ∧
    byteLength line < maxScanTokenSize

theorem fieldsLoop_word {w : Text} (hw : ∀ c ∈ w, isSpace c = false) (word rest : Text) :
    fieldsLoop word (w ++ rest) = fieldsLoop (w.reverse ++ word) rest := by
  induction w generalizing word with
  | nil => rfl
  | cons c w ih =>
      have hc := hw c List.mem_cons_self
      rw [List.cons_append, fieldsLoop, if_neg (by simp [hc]),
        ih (fun d hd => hw d (List.mem_cons_of_mem c hd))]
      simp

/-- Words with blanks between them are taken apart again. -/
theorem fields_intercalate {words : List Text} (h : ∀ w ∈ words, Solid w) :
    fields ([' '].intercalate words) = words := by
  have hlast : ∀ w : Text, Solid w → fields w = [w] := by
    intro w hw
    have hloop := fieldsLoop_word hw.2 [] []
    rw [List.append_nil, List.append_nil] at hloop
    rw [fields, hloop, fieldsLoop, if_neg (by simpa using hw.1), List.reverse_reverse]
  induction words with
  | nil => rfl
  | cons w words ih =>
      have hw := h w List.mem_cons_self
      have hrest := ih (fun v hv => h v (List.mem_cons_of_mem w hv))
      cases words with
      | nil =>
          rw [List.intercalate_singleton]
          exact hlast w hw
      | cons v words =>
          have hblank : isSpace ' ' = true := by decide
          rw [List.intercalate_cons_cons, fields, List.append_assoc, fieldsLoop_word hw.2,
            List.append_nil, List.singleton_append, fieldsLoop, if_pos hblank,
            if_neg (by simpa using hw.1), List.reverse_reverse]
          exact congrArg (w :: ·) hrest

theorem parse_formatEntry {row : Row} (h : WritesBack row) :
    parseFstabLine (formatEntry row) = some row := by
  rw [parseFstabLine, formatEntry, fields_intercalate h.1]
  rfl

theorem formatEntry_eq (row : Row) :
    formatEntry row = row.device ++ ' ' :: (row.dir ++ ' ' :: (row.type ++ ' ' ::
      (row.options ++ ' ' :: (row.dump ++ ' ' :: row.fsck)))) := by
  simp [formatEntry, Row.columns, List.intercalate_cons_cons]

/-- The line of an entry that is read back is a line of the table. -/
theorem cleanLine_formatEntry {row : Row} (h : WritesBack row) : CleanLine (formatEntry row) := by
  obtain ⟨hsolid, hcomment, hshort⟩ := h
  have hdevice : Solid row.device := hsolid _ (by simp [Row.columns])
  have hfsck : Solid row.fsck := hsolid _ (by simp [Row.columns])
  have hhead : (formatEntry row).head? = row.device.head? := by
    rw [formatEntry_eq, List.head?_append_of_ne_nil _ hdevice.1]
  have hlast : (formatEntry row).getLast? = row.fsck.getLast? := by
    rw [formatEntry_eq]
    simp [List.getLast?_append, List.getLast?_cons, List.getLast?_eq_some_getLast hfsck.1]
  refine ⟨?_, ?_, ?_, hshort⟩
  · have hfield : ∀ field ∈ row.columns, '\n' ∉ field := fun field hmem hm =>
      absurd ((hsolid field hmem).2 _ hm) (by decide)
    simp only [Row.columns, List.forall_mem_cons] at hfield
    rw [formatEntry_eq]
    simp [hfield]
  · refine trimSpaceChars_eq_self ?_ ?_
    · rw [hhead, List.head?_eq_some_head hdevice.1]
      simp [hdevice.2 _ (List.head_mem hdevice.1)]
    · rw [hlast, List.getLast?_eq_some_getLast hfsck.1]
      simp [hfsck.2 _ (List.getLast_mem hfsck.1)]
  · rw [isContent, hhead]
    have hne : formatEntry row ≠ [] := by
      rw [formatEntry_eq]
      simp
    simp [hne, hcomment]

theorem byteLength_sublist {a b : Text} (h : a.Sublist b) : byteLength a ≤ byteLength b := by
  induction h with
  | slnil => exact Nat.le_refl _
  | cons c _ ih =>
      simp only [byteLength, List.map_cons, List.sum_cons] at ih ⊢
      omega
  | cons_cons c _ ih =>
      simp only [byteLength, List.map_cons, List.sum_cons] at ih ⊢
      omega

theorem mem_rawLines {text line : Text} (h : line ∈ rawLines text) : '\n' ∉ line := by
  simp only [rawLines] at h
  split_ifs at h
  · exact not_mem_of_mem_splitOn ((List.dropLast_sublist _).subset h)
  · exact not_mem_of_mem_splitOn h

/-- Every line that is read is clean. -/
theorem cleanLine_of_readLines {disk : Disk} {s : MountState} {lines : List Text}
    (h : readLines disk s = .ok lines) : ∀ line ∈ lines, CleanLine line := by
  simp only [readLines] at h
  split_ifs at h
  split at h
  · cases h
    simp
  · next text hfstab =>
    split_ifs at h with hshort
    cases h
    intro line hline
    obtain ⟨hmem, hcontent⟩ := List.mem_filter.mp hline
    obtain ⟨raw, hraw, rfl⟩ := List.mem_map.mp hmem
    have hsub := trimSpaceChars_sublist raw
    refine ⟨fun hm => mem_rawLines hraw (hsub.subset hm), ?_, hcontent, ?_⟩
    · exact trimSpaceChars_eq_self (trimSpaceChars_head raw) (trimSpaceChars_last raw)
    · exact (byteLength_sublist hsub).trans_lt (hshort raw hraw)

theorem rawLines_joinLines {lines : List Text} (h : ∀ line ∈ lines, CleanLine line) :
    rawLines (joinLines lines) = lines := by
  cases lines with
  | nil => rfl
  | cons first rest =>
      have hsplit : (['\n'].intercalate (first :: rest)).splitOn '\n' = first :: rest :=
        List.splitOn_intercalate '\n' (fun l hl => (h l hl).1) (List.cons_ne_nil _ _)
      have hne : ['\n'].intercalate (first :: rest) ≠ [] := by
        intro hnil
        rw [hnil, List.splitOn_nil] at hsplit
        have hcontent := (h first List.mem_cons_self).2.2.1
        rw [← (List.cons.inj hsplit).1] at hcontent
        cases hcontent
      rw [joinLines, if_pos hne, rawLines]
      simp only [List.splitOn_append_cons_self, hsplit, List.splitOn_nil, List.getLast?_append,
        List.getLast?_singleton, Option.some_or, if_true, List.dropLast_concat]

/-- Clean lines that were written are read again. -/
theorem readLines_written (s : MountState) {lines : List Text}
    (h : ∀ line ∈ lines, CleanLine line) :
    readLines .sound { s with fstab := some (joinLines lines) } = .ok lines := by
  have htrim : lines.map trimSpaceChars = lines := by
    conv_rhs => rw [← List.map_id lines]
    exact List.map_congr_left fun line hline => (h line hline).2.1
  have hfilter : lines.filter isContent = lines :=
    List.filter_eq_self.mpr fun line hline => (h line hline).2.2.1
  have hshort : ∀ line ∈ lines, byteLength line < maxScanTokenSize :=
    fun line hline => (h line hline).2.2.2
  simp only [readLines, rawLines_joinLines h, if_pos hshort, htrim, hfilter]
  rfl

/-- What is read depends on the table alone. -/
theorem readLines_congr (disk : Disk) {s t : MountState} (h : t.fstab = s.fstab) :
    readLines disk t = readLines disk s := by
  rw [readLines, readLines, h]

theorem readLines_sound {disk : Disk} {s : MountState} {lines : List Text}
    (h : readLines disk s = .ok lines) : readLines .sound s = .ok lines := by
  rw [readLines] at h
  split_ifs at h with hfails
  rw [readLines, if_neg (by decide)]
  exact h

@[simp] theorem setFile_fstab (s : MountState) (file : List Text) (content : Option Text) :
    (setFile s file content).fstab = s.fstab := rfl

theorem writePasswdFile_fstab (cfg : Config) (disk : Disk) (s : MountState)
    (path accessKey secretKey : Text) :
    (writePasswdFile cfg disk s path accessKey secretKey).1.fstab = s.fstab := by
  simp only [writePasswdFile]
  split_ifs
  · rfl
  · split <;> rfl

theorem provideKeys_fstab (cfg : Config) (disk : Disk) (s : MountState) (s3 : S3Config)
    (passwd : Text) (needed : Bool) :
    (provideKeys cfg disk s s3 passwd needed).1.fstab = s.fstab := by
  rw [provideKeys]
  split_ifs
  · exact writePasswdFile_fstab ..
  · rfl
  · rfl

theorem applyS3Entry_fstab (cfg : Config) (disk : Disk) (s : MountState) (entry : Entry)
    (keep : Text) (requireKeys : Bool) :
    (applyS3Entry cfg disk s entry keep requireKeys).1.fstab = s.fstab := by
  simp only [applyS3Entry]
  split
  · rfl
  · split
    · rfl
    · split_ifs
      · rfl
      · split
        · exact provideKeys_fstab ..
        · exact provideKeys_fstab ..

theorem prepare_fstab (cfg : Config) (disk : Disk) (s : MountState) (entry : Entry)
    (keep : Text) (requireKeys : Bool) :
    (prepare cfg disk s entry keep requireKeys).1.fstab = s.fstab := by
  simp only [prepare]
  split_ifs
  · exact applyS3Entry_fstab ..
  · rfl

/-- An accepted entry is one that can be looked up. -/
theorem validateLookup_normalized {row new : Row} (h : normalizeEntry row = .ok new) :
    validateLookupFields new.device new.dir = none := by
  simp only [normalizeEntry] at h
  split_ifs at h with hempty htype hspace habs hdump hfsck
  obtain rfl := Except.ok.inj h
  have htrim : trimSpaceChars (trimSpaceChars row.dir) = trimSpaceChars row.dir :=
    trimSpaceChars_eq_self (trimSpaceChars_head _) (trimSpaceChars_last _)
  simp only [List.any_cons, Bool.or_eq_true, not_or] at hspace
  rw [not_or] at hempty
  simp [validateLookupFields, htrim, hempty.2, hspace.1, hspace.2.1, not_not.mp habs]

theorem normalized_of_prepare {cfg : Config} {disk : Disk} {s : MountState} {entry : Entry}
    {keep : Text} {requireKeys : Bool} {new : Row}
    (h : (prepare cfg disk s entry keep requireKeys).2 = .ok new) :
    ∃ row, normalizeEntry row = .ok new := by
  simp only [prepare] at h
  split_ifs at h
  · cases happly : (applyS3Entry cfg disk s entry keep requireKeys).2 with
    | error err =>
        simp only [happly] at h
        cases h
    | ok row =>
        simp only [happly] at h
        exact ⟨row, h⟩
  · exact ⟨entry.toRow, h⟩

theorem isAt_iff {device dir : Text} {row : Row} :
    Row.isAt device dir row = true ↔ row.pair = (device, dir) := by
  simp [Row.isAt, Row.pair]

/-- The first line at the place is replaced, and the others stay. -/
theorem replaceFirst_eq_some {device dir new : Text} {lines after : List Text}
    (h : replaceFirst device dir new lines = some after) :
    ∃ pre line post, lines = pre ++ line :: post ∧ lineIsAt device dir line = true ∧
      (∀ l ∈ pre, lineIsAt device dir l = false) ∧ after = pre ++ new :: post := by
  induction lines generalizing after with
  | nil => cases h
  | cons line lines ih =>
      rw [replaceFirst] at h
      split_ifs at h with hat
      · obtain rfl := Option.some.inj h
        exact ⟨[], line, lines, rfl, hat, by simp, rfl⟩
      · obtain ⟨rest, hrest, rfl⟩ := Option.map_eq_some_iff.mp h
        obtain ⟨pre, found, post, rfl, hfound, hpre, rfl⟩ := ih hrest
        refine ⟨line :: pre, found, post, rfl, hfound, ?_, rfl⟩
        intro l hl
        rcases List.mem_cons.mp hl with rfl | hl
        · simpa using hat
        · exact hpre l hl

theorem replaceFirst_ne_none {device dir new : Text} {lines : List Text}
    (h : ∃ line ∈ lines, lineIsAt device dir line = true) :
    replaceFirst device dir new lines ≠ none := by
  induction lines with
  | nil => simp at h
  | cons line lines ih =>
      rw [replaceFirst]
      split_ifs with hat
      · simp
      · obtain ⟨found, hmem, hfound⟩ := h
        rcases List.mem_cons.mp hmem with rfl | hmem
        · exact absurd hfound hat
        · simpa using ih ⟨found, hmem, hfound⟩

theorem lineIsAt_iff {device dir line : Text} :
    lineIsAt device dir line = true ↔
      ∃ row, parseFstabLine line = some row ∧ row.pair = (device, dir) := by
  rw [lineIsAt]
  cases parseFstabLine line with
  | none => simp
  | some row => simp [isAt_iff]

theorem rows_of_lines {s : MountState} {lines : List Text} (h : readLines .sound s = .ok lines) :
    rows s = .ok (lines.filterMap parseFstabLine) := by
  rw [rows, h]
  rfl

theorem malformed_of_lines {s : MountState} {lines : List Text}
    (h : readLines .sound s = .ok lines) :
    malformed s = .ok (lines.filter fun line => parseFstabLine line = none) := by
  rw [malformed, h]
  rfl

/-- An accepted entry that is listed is found again. -/
theorem findable {cfg : Config} {t : MountState} {lines : List Text} {row old : Row}
    (hnormal : normalizeEntry old = .ok row) (hread : readLines .sound t = .ok lines)
    (hmem : row ∈ lines.filterMap parseFstabLine) : Findable cfg t row := by
  have hlookup := validateLookup_normalized hnormal
  obtain ⟨line, hline, hparse⟩ := List.mem_filterMap.mp hmem
  have hat : ∃ l ∈ lines, lineIsAt row.device row.dir l = true :=
    ⟨line, hline, lineIsAt_iff.mpr ⟨row, hparse, rfl⟩⟩
  constructor
  · have hremoved : (lines.filterMap parseFstabLine).filter (Row.isAt row.device row.dir) ≠ [] :=
      List.ne_nil_of_mem (List.mem_filter.mpr ⟨hmem, isAt_iff.mpr rfl⟩)
    simp only [delete, hlookup, hread, if_neg hremoved]
    rfl
  · intro entry new hnew
    simp only [accepted, hread] at hnew
    have hsome : replaceFirst row.device row.dir (formatEntry new) lines ≠ none :=
      replaceFirst_ne_none hat
    cases hreplace : replaceFirst row.device row.dir (formatEntry new) lines with
    | none => exact absurd hreplace hsome
    | some after =>
        simp only [update, hlookup, hread, hnew, hreplace]
        rfl

/-- A table that was written holds the entries of its lines. -/
theorem writeLines_spec {disk : Disk} (hdisk : ∀ written, disk ≠ .writeFails written)
    (s : MountState) {lines : List Text} (hclean : ∀ line ∈ lines, CleanLine line) :
    ((writeLines disk s lines).2 ≠ none → (writeLines disk s lines).1.fstab = s.fstab) ∧
      ((writeLines disk s lines).2 = none →
        readLines .sound (writeLines disk s lines).1 = .ok lines) := by
  have hwritten := readLines_written s hclean
  cases disk with
  | mkdirFails => exact ⟨fun _ => rfl, fun h => by cases h⟩
  | writeFails written => exact absurd rfl (hdisk written)
  | sound | readFails | secretFails left | removeFails => exact ⟨fun h => absurd rfl h, fun _ => hwritten⟩

theorem rows_congr {s t : MountState} (h : t.fstab = s.fstab) : rows t = rows s := by
  rw [rows, rows, readLines_congr .sound h]

theorem MapUpdate.of_failed {cfg : Config} {s : MountState} {a : Disk × MountCall}
    (hfailed : (a.2.run cfg a.1 s).2 ≠ none) (hfstab : (a.2.run cfg a.1 s).1.fstab = s.fstab) :
    MapUpdate cfg s a :=
  ⟨fun _ => rows_congr hfstab, fun h => absurd h hfailed⟩

theorem mapUpdate_add {cfg : Config} {s : MountState} {disk : Disk} {entry : Entry}
    (h : Survives cfg s (disk, .add entry)) : MapUpdate cfg s (disk, .add entry) := by
  have hfstab := prepare_fstab cfg disk s entry [] true
  have hrun : MountCall.run cfg disk s (.add entry) = add cfg disk s entry := rfl
  cases hprepare : (prepare cfg disk s entry [] true).2 with
  | error err =>
      refine MapUpdate.of_failed ?_ ?_ <;> simp only [hrun, add, hprepare]
      · simp
      · exact hfstab
  | ok row =>
      have hread := readLines_congr disk hfstab
      cases hlines : readLines disk s with
      | error err =>
          refine MapUpdate.of_failed ?_ ?_ <;> simp only [hrun, add, hprepare, hread, hlines]
          · simp
          · exact hfstab
      | ok lines =>
          by_cases hconflict : lines.any (lineIsAt row.device row.dir) = true
          · refine MapUpdate.of_failed ?_ ?_ <;>
              simp only [hrun, add, hprepare, hread, hlines, if_pos hconflict]
            · simp
            · exact hfstab
          · obtain ⟨hback, -⟩ := h.2 row hprepare
            have hparse := parse_formatEntry hback
            have hclean : ∀ line ∈ lines ++ [formatEntry row], CleanLine line := by
              intro line hline
              rcases List.mem_append.mp hline with hline | hline
              · exact cleanLine_of_readLines hlines line hline
              · exact List.mem_singleton.mp hline ▸ cleanLine_formatEntry hback
            obtain ⟨hfail, hok⟩ := writeLines_spec h.1 (prepare cfg disk s entry [] true).1 hclean
            have hcall : MountCall.run cfg disk s (.add entry) =
                writeLines disk (prepare cfg disk s entry [] true).1
                  (lines ++ [formatEntry row]) := by
              simp only [hrun, add, hprepare, hread, hlines, if_neg hconflict]
            have hsound := readLines_sound hlines
            rw [MapUpdate, hcall]
            refine ⟨fun hne => rows_congr ((hfail hne).trans hfstab), fun hnone => ?_⟩
            have hafter := hok hnone
            obtain ⟨raw, hraw⟩ := normalized_of_prepare hprepare
            refine ⟨?_, lines.filterMap parseFstabLine,
              (lines ++ [formatEntry row]).filterMap parseFstabLine, rows_of_lines hsound,
              rows_of_lines hafter, ?_, row, hprepare, ?_, ?_⟩
            · rw [malformed_of_lines hsound, malformed_of_lines hafter]
              simp [hparse]
            · intro hunique
              rw [UniquePairs, List.filterMap_append, List.map_append, List.nodup_append]
              refine ⟨hunique, by simp [hparse], ?_⟩
              intro pair hpair other hother heq
              simp only [List.filterMap_cons, hparse, List.filterMap_nil, List.map_cons,
                List.map_nil, List.mem_singleton] at hother
              obtain ⟨found, hfound, rfl⟩ := List.mem_map.mp hpair
              obtain ⟨line, hline, hfoundline⟩ := List.mem_filterMap.mp hfound
              refine hconflict (List.any_eq_true.mpr ⟨line, hline, lineIsAt_iff.mpr ?_⟩)
              exact ⟨found, hfoundline, heq.trans hother⟩
            · simp [hparse]
            · refine findable hraw hafter ?_
              simp [hparse]

/-- An entry whose place no other entry has keeps the places apart. -/
theorem unique_replaced {pre post : List Row} {old row : Row} {device dir : Text}
    (hunique : UniquePairs (pre ++ old :: post)) (hpair : old.pair = (device, dir))
    (hpre : ∀ r ∈ pre, Row.isAt device dir r = false)
    (hnew : row.pair ∉ ((pre ++ old :: post).eraseP (Row.isAt device dir)).map Row.pair) :
    UniquePairs (pre ++ row :: post) := by
  have herase : (pre ++ old :: post).eraseP (Row.isAt device dir) = pre ++ post := by
    rw [List.eraseP_append_right _ (fun r hr => by simp [hpre r hr]),
      List.eraseP_cons_of_pos (isAt_iff.mpr hpair)]
  rw [herase, List.map_append] at hnew
  rw [UniquePairs, List.map_append, List.map_cons, List.nodup_middle, List.nodup_cons] at hunique ⊢
  exact ⟨hnew, hunique.2⟩

theorem mapUpdate_update {cfg : Config} {s : MountState} {disk : Disk} {oldDevice oldDir : Text}
    {entry : Entry} (h : Survives cfg s (disk, .update oldDevice oldDir entry)) :
    MapUpdate cfg s (disk, .update oldDevice oldDir entry) := by
  have hrun : MountCall.run cfg disk s (.update oldDevice oldDir entry) =
      update cfg disk s oldDevice oldDir entry := rfl
  cases hlookup : validateLookupFields oldDevice oldDir with
  | some err =>
      refine MapUpdate.of_failed ?_ ?_ <;> simp [hrun, update, hlookup]
  | none =>
      cases hlines : readLines disk s with
      | error err =>
          refine MapUpdate.of_failed ?_ ?_ <;> simp [hrun, update, hlookup, hlines]
      | ok lines =>
          have hfstab := prepare_fstab cfg disk s entry (keptPasswd lines oldDevice oldDir) false
          have haccepted : accepted cfg disk s (.update oldDevice oldDir entry) =
              (prepare cfg disk s entry (keptPasswd lines oldDevice oldDir) false).2 := by
            simp only [accepted, hlines]
          cases hprepare : (prepare cfg disk s entry (keptPasswd lines oldDevice oldDir) false).2 with
          | error err =>
              refine MapUpdate.of_failed ?_ ?_ <;>
                simp only [hrun, update, hlookup, hlines, hprepare]
              · simp
              · exact hfstab
          | ok row =>
              cases hreplace : replaceFirst oldDevice oldDir (formatEntry row) lines with
              | none =>
                  refine MapUpdate.of_failed ?_ ?_ <;>
                    simp only [hrun, update, hlookup, hlines, hprepare, hreplace]
                  · simp
                  · exact hfstab
              | some after =>
                  obtain ⟨hback, hfree⟩ := h.2 row (haccepted.trans hprepare)
                  have hparse := parse_formatEntry hback
                  obtain ⟨pre, line, post, rfl, hat, hpre, rfl⟩ := replaceFirst_eq_some hreplace
                  obtain ⟨old, hold, hpair⟩ := lineIsAt_iff.mp hat
                  have hclean : ∀ l ∈ pre ++ formatEntry row :: post, CleanLine l := by
                    intro l hl
                    have hall := cleanLine_of_readLines hlines
                    rcases List.mem_append.mp hl with hl | hl
                    · exact hall l (List.mem_append_left _ hl)
                    · rcases List.mem_cons.mp hl with rfl | hl
                      · exact cleanLine_formatEntry hback
                      · exact hall l (List.mem_append_right _ (List.mem_cons_of_mem _ hl))
                  obtain ⟨hfail, hok⟩ := writeLines_spec h.1
                    (prepare cfg disk s entry
                      (keptPasswd (pre ++ line :: post) oldDevice oldDir) false).1 hclean
                  have hcall : MountCall.run cfg disk s (.update oldDevice oldDir entry) =
                      writeLines disk (prepare cfg disk s entry
                        (keptPasswd (pre ++ line :: post) oldDevice oldDir) false).1
                        (pre ++ formatEntry row :: post) := by
                    simp only [hrun, update, hlookup, hlines, hprepare, hreplace]
                  have hsound := readLines_sound hlines
                  have hbefore := rows_of_lines hsound
                  have hnever : ∀ r ∈ pre.filterMap parseFstabLine,
                      Row.isAt oldDevice oldDir r = false := by
                    intro r hr
                    obtain ⟨l, hl, hlr⟩ := List.mem_filterMap.mp hr
                    have hnot := hpre l hl
                    rwa [lineIsAt, hlr, Option.any_some] at hnot
                  rw [MapUpdate, hcall]
                  refine ⟨fun hne => rows_congr ((hfail hne).trans hfstab), fun hnone => ?_⟩
                  have hafter := hok hnone
                  obtain ⟨raw, hraw⟩ := normalized_of_prepare hprepare
                  refine ⟨?_, _, (pre ++ formatEntry row :: post).filterMap parseFstabLine, hbefore,
                    rows_of_lines hafter, ?_, row, pre.filterMap parseFstabLine, old,
                    post.filterMap parseFstabLine, haccepted.trans hprepare, ?_, hpair, ?_, ?_, ?_⟩
                  · rw [malformed_of_lines hsound, malformed_of_lines hafter]
                    simp [hparse, hold]
                  · intro hunique
                    have hnew := hfree _ hbefore hunique
                    simp only [List.filterMap_append, List.filterMap_cons, hold, hparse]
                      at hunique hnew ⊢
                    exact unique_replaced hunique hpair hnever hnew
                  · simp [hold]
                  · intro hm
                    obtain ⟨r, hr, hrpair⟩ := List.mem_map.mp hm
                    have hnot := hnever r hr
                    rw [isAt_iff.mpr hrpair] at hnot
                    cases hnot
                  · simp [hparse]
                  · refine findable hraw hafter ?_
                    simp [hparse]

theorem dropSecrets_fstab (cfg : Config) (disk : Disk) (removed : List Row) (s : MountState) :
    (removed.foldl (dropSecret cfg disk) s).fstab = s.fstab := by
  induction removed generalizing s with
  | nil => rfl
  | cons row removed ih =>
      rw [List.foldl_cons, ih, dropSecret, removePasswdFromOptions]
      split_ifs <;> rfl

/-- Lines that are not at the place hold the entries that are not. -/
theorem filterMap_filter_lines (device dir : Text) (lines : List Text) :
    (lines.filter fun line => ¬ lineIsAt device dir line).filterMap parseFstabLine =
      (lines.filterMap parseFstabLine).filter fun row => row.pair ≠ (device, dir) := by
  induction lines with
  | nil => rfl
  | cons line lines ih =>
      cases hparse : parseFstabLine line with
      | none => simpa [lineIsAt, hparse] using ih
      | some row =>
          have hat : lineIsAt device dir line = decide (row.pair = (device, dir)) := by
            simp [lineIsAt, hparse, Row.isAt, Row.pair]
          by_cases hpair : row.pair = (device, dir)
          · simpa [hat, hpair, hparse] using ih
          · simpa [hat, hpair, hparse] using ih

theorem mapUpdate_delete {cfg : Config} {s : MountState} {disk : Disk} {device dir : Text}
    (h : Survives cfg s (disk, .delete device dir)) :
    MapUpdate cfg s (disk, .delete device dir) := by
  have hrun : MountCall.run cfg disk s (.delete device dir) = delete cfg disk s device dir := rfl
  cases hlookup : validateLookupFields device dir with
  | some err =>
      refine MapUpdate.of_failed ?_ ?_ <;> simp [hrun, delete, hlookup]
  | none =>
      cases hlines : readLines disk s with
      | error err =>
          refine MapUpdate.of_failed ?_ ?_ <;> simp [hrun, delete, hlookup, hlines]
      | ok lines =>
          have hfstab := dropSecrets_fstab cfg disk
            ((lines.filterMap parseFstabLine).filter (Row.isAt device dir)) s
          by_cases hremoved : (lines.filterMap parseFstabLine).filter (Row.isAt device dir) = []
          · refine MapUpdate.of_failed ?_ ?_ <;>
              simp [hrun, delete, hlookup, hlines, hremoved]
          · have hclean : ∀ line ∈ lines.filter (fun line => ¬ lineIsAt device dir line),
                CleanLine line :=
              fun line hline => cleanLine_of_readLines hlines line (List.mem_of_mem_filter hline)
            have hcall : MountCall.run cfg disk s (.delete device dir) =
                writeLines disk (((lines.filterMap parseFstabLine).filter
                  (Row.isAt device dir)).foldl (dropSecret cfg disk) s)
                  (lines.filter fun line => ¬ lineIsAt device dir line) := by
              simp only [hrun, delete, hlookup, hlines, if_neg hremoved]
            obtain ⟨hfail, hok⟩ := writeLines_spec h.1 (((lines.filterMap parseFstabLine).filter
              (Row.isAt device dir)).foldl (dropSecret cfg disk) s) hclean
            have hsound := readLines_sound hlines
            rw [MapUpdate, hcall]
            refine ⟨fun hne => rows_congr ((hfail hne).trans hfstab), fun hnone => ?_⟩
            have hafter := hok hnone
            refine ⟨?_, lines.filterMap parseFstabLine, _, rows_of_lines hsound,
              rows_of_lines hafter, ?_, ?_, filterMap_filter_lines device dir lines⟩
            · rw [malformed_of_lines hsound, malformed_of_lines hafter, List.filter_filter]
              refine congrArg Except.ok (List.filter_congr ?_)
              intro line _
              cases hparse : parseFstabLine line with
              | none => simp [lineIsAt, hparse]
              | some row => simp
            · intro hunique
              rw [filterMap_filter_lines]
              exact hunique.sublist (List.filter_sublist.map Row.pair)
            · obtain ⟨row, hrow⟩ := List.exists_mem_of_ne_nil _ hremoved
              obtain ⟨hmem, hat⟩ := List.mem_filter.mp hrow
              exact List.mem_map.mpr ⟨row, hmem, isAt_iff.mp hat⟩

/-- What holds of the value of a computation can be tested. -/
instance decidableOfOk {ε α : Type*} (x : Except ε α) (p : α → Prop) [∀ a, Decidable (p a)] :
    Decidable (∀ a, x = .ok a → p a) :=
  match x with
  | .error _ => .isTrue fun _ h => by cases h
  | .ok a => decidable_of_iff (p a) ⟨fun h b hb => Except.ok.inj hb ▸ h, fun h => h a rfl⟩

/-- Whether the disk fails to write the table. -/
def Disk.writeFailed : Disk → Bool
  | .writeFails _ => true
  | _ => false

instance (disk : Disk) : Decidable (∀ written, disk ≠ .writeFails written) :=
  decidable_of_iff (disk.writeFailed = false) (by cases disk <;> simp [Disk.writeFailed])

instance (rows : List Row) : Decidable (UniquePairs rows) :=
  inferInstanceAs (Decidable (List.Nodup _))

instance (cfg : Config) (s : MountState) (a : Disk × MountCall) : Decidable (Survives cfg s a) :=
  match a with
  | (_, .add _) => inferInstanceAs (Decidable (_ ∧ ∀ _row, _ → _ ∧ True))
  | (_, .update _ _ _) => inferInstanceAs (Decidable (_ ∧ ∀ _row, _ → _ ∧ ∀ _before, _ → _ → _))
  | (_, .delete _ _) => inferInstanceAs (Decidable (_ ∧ ∀ _row, _ → _ ∧ True))

/-- Along every run the calls update the mount table like a map, provided that
each entry that is written is read back as it was, that `Update` moves no entry
to the place of another one, and that the disk does not cut the table off. -/
theorem fstab_is_map (cfg : Config) (s : MountState) (calls : List (Disk × MountCall))
    (h : Guarded (step cfg) (Survives cfg) s calls) : Guarded (step cfg) (MapUpdate cfg) s calls := by
  refine h.mono fun t a ha => ?_
  obtain ⟨disk, call⟩ := a
  cases call with
  | add entry => exact mapUpdate_add ha
  | update oldDevice oldDir entry => exact mapUpdate_update ha
  | delete device dir => exact mapUpdate_delete ha

/-- A service in the root directory, for URLs that are well formed already. -/
def rootConfig : Config where
  cwd := ⟨[], plain_nil⟩
  secretsDir := "/s".toList
  reparse := some
  secretsDir_ne := by decide

def emptyTable : MountState := ⟨none, fun _ => none⟩

/-- A disk that is mounted in a directory. -/
def plainEntry (device dir : String) : Entry :=
  ⟨⟨device.toList, dir.toList, "ext4".toList, [], [], []⟩, none⟩

theorem fstab_is_map_disks : Guarded (step rootConfig) (MapUpdate rootConfig) emptyTable
    [(.sound, .add (plainEntry "/dev/a" "/mnt/a")), (.sound, .add (plainEntry "/dev/b" "/mnt/b")),
      (.sound, .update "/dev/a".toList "/mnt/a".toList (plainEntry "/dev/c" "/mnt/c")),
      (.sound, .delete "/dev/b".toList "/mnt/b".toList)] :=
  fstab_is_map rootConfig emptyTable _ (by decide)

/-- A device that starts like a comment is accepted, and it is not listed. -/
theorem comment_device_is_lost : ¬ Guarded (step rootConfig) (MapUpdate rootConfig) emptyTable
    [(.sound, .add (plainEntry "#disk" "/mnt/a"))] := by
  intro h
  obtain ⟨hmap, -⟩ := h _ rfl
  obtain ⟨-, before, after, hbefore, hafter, -, row, -, happend, -⟩ := hmap.2 (by decide)
  have hnone : rows (MountCall.run rootConfig .sound emptyTable
      (.add (plainEntry "#disk" "/mnt/a"))).1 = .ok [] := by decide
  have hnil : after = [] := Except.ok.inj (hafter.symm.trans hnone)
  rw [hnil] at happend
  simp at happend

end GoSite.Mounts
