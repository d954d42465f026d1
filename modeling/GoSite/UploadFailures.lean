import GoSite.CertificateSharing
import GoSite.ConfTokens

/-!
# Uploads that fail

An upload overwrites the two certificate files before it writes the configuration, lets
nginx test it and reload. What fails in between undoes the configuration at most.
-/
namespace GoSite.Website
open GoStrings Paths NginxConf
open GoSite.Terminal (joinPath)

def certNames : List Text := ["ssl_certificate".toList, "ssl_certificate_key".toList]

/-- The certificates and keys a configuration names, as nginx reads it. -/
def certFiles (config : Text) : List Text := firstArgs certNames .start (tokens config)

section
variable (v : Service) (cwd : Directory) (opens : List Char → List Char)

/-- The configuration of the website names the file. `opens` is the panel's path of the
file that nginx opens: nginx has a directory of its own, and follows links. -/
def Host.Names (s : Host) (site : Website) (path : List Char) : Prop :=
  ∃ config, s.panel.files.siteD (confName site.domain) = some config ∧
    ∃ arg ∈ certFiles config.toList, path = opens arg

/-- The configuration and the files it names are what they were. -/
structure Host.FilesKept (s t : Host) (site : Website) : Prop where
  config : t.panel.files.siteD (confName site.domain) =
    s.panel.files.siteD (confName site.domain)
  named : ∀ path, s.Names opens site path → t.readFile v cwd path = s.readFile v cwd path

/-- So is the flag of the website. -/
structure Host.UploadUndone (s t : Host) (site : Website) : Prop where
  files : s.FilesKept v cwd opens t site
  flag : (t.panel.repo.findByID site.id).map Website.ssl = some site.ssl

/-- What an upload reads of the configuration. -/
def Host.configRead (u : UploadWeather) (s : Host) (site : Website) : Option String :=
  if (u.fails .readConfig).isSome then none else s.panel.files.siteD (confName site.domain)

/-- The calls that make room for the certificates and write them. -/
def uploadCalls : Option String → List UploadCall
  | none => [.makeArchive, .archivePublic, .archivePrivate, .makeLive, .writePublic, .writePrivate]
  | some config => (if certPathsFound config then [] else [.makeLive]) ++
      [.writePublic, .writePrivate]

/-- Among the configuration and the files it names, each file that was written had the
text that was written to it last. -/
def Host.Restated (s : Host) (site : Website) (writes : List (List Char × String)) : Prop :=
  ∀ path text, s.Names opens site path ∨ v.IsConfig cwd site.domain path →
    lastText cwd path writes = some text → s.readFile v cwd path = some text

/-- The configuration had the text that it is given, and every other file that it names
what it holds then. Files below `site.d` are repaired. -/
def Host.Rewritten (s : Host) (site : Website) (writes : List (List Char × String))
    (text : String) (repaired : List Char → String → String) : Prop :=
  s.panel.files.siteD (confName site.domain) = some (repaired (confName site.domain) text) ∧
    ∀ path, s.Names opens site path → ¬ v.IsConfig cwd site.domain path →
      ∀ old, (lastText cwd path writes).or (s.readFile v cwd path) = some old →
        s.readFile v cwd path = some
          (match v.siteName cwd path with
          | none => old
          | some n => repaired n old)

/-- How an upload ends that has written its certificates: the step that fails, and what
was written by then. -/
def Service.EndsKept (u : UploadWeather) (s : Host) (site : Website)
    (writes : List (List Char × String)) : Prop :=
  let e := u.weather
  let read := s.configRead u site
  let updated := v.updatedConfig site.domain (read.getD "")
  if read ≠ none ∧ e.faults .backupConfig ≠ none then s.Restated v cwd opens site writes
  else if e.faults .writeConfig ≠ none then
    match e.leaves .writeConfig with
    | none => s.Restated v cwd opens site writes
    | some left => s.Rewritten v cwd opens site writes left fun _ text => text
  else if read ≠ none ∧ e.accepts updated ≠ none then s.Restated v cwd opens site writes
  else e.Works [.reload, .updateRow, .updateRead] ∨
    s.Rewritten v cwd opens site writes updated e.repaired ∧
      (e.Works [.reload, .updateRow] → site.ssl = true)

/-- The upload is refused, or all that it writes up to the step that fails was there. -/
def Service.UploadKept (u : UploadWeather) (s : Host) (site : Website) (input : ManualInput) :
    Prop :=
  validatePEM (withoutCR input.publicPEM) (withoutCR input.privatePEM) ≠ none ∨
    if ∀ call ∈ uploadCalls (s.configRead u site), u.fails call = none then
      v.EndsKept cwd opens u s site (v.uploadWrites u s site.id input)
    else s.Restated v cwd opens site (v.uploadWrites u s site.id input)

end

section
variable {v : Service} {cwd : Directory} {opens : List Char → List Char}

/-! ## The files that are written -/

theorem lastText_snoc (path : List Char) (writes : List (List Char × String))
    (w : List Char × String) :
    lastText cwd path (writes ++ [w]) =
      if absElements cwd path = absElements cwd w.1 then some w.2
      else lastText cwd path writes := by
  rw [lastText, List.foldl_append]
  rfl

theorem lastText_mem {path : List Char} {text : String} {writes : List (List Char × String)}
    (h : lastText cwd path writes = some text) : ∃ w ∈ writes, w.2 = text := by
  induction writes using List.reverseRecOn with
  | nil => cases h
  | append_singleton writes w ih =>
      rw [lastText_snoc] at h
      split_ifs at h with hsame
      · exact ⟨w, by simp, Option.some.inj h⟩
      · obtain ⟨w', hw', htext⟩ := ih h
        exact ⟨w', List.mem_append_left _ hw', htext⟩

@[simp] theorem writeAll_repo (s : Host) (writes : List (List Char × String)) :
    (s.writeAll v cwd writes).panel.repo = s.panel.repo := by
  induction writes generalizing s with
  | nil => rfl
  | cons w writes ih => rw [writeAll_cons, ih, writeFile_repo]

theorem writeFile_siteD (s : Host) (path : List Char) (text : String) (n : List Char) :
    (s.writeFile v cwd path text).panel.files.siteD n =
      if v.siteName cwd path = some n then some text else s.panel.files.siteD n := by
  unfold Host.writeFile
  cases hname : v.siteName cwd path with
  | none => rfl
  | some m =>
      dsimp only
      by_cases hm : m = n
      · subst hm
        rw [Function.update_self, if_pos rfl]
      · rw [Function.update_of_ne (Ne.symm hm), if_neg fun h => hm (Option.some.inj h)]

/-- A configuration changes under a path of its own only. -/
theorem writeAll_siteD (s : Host) (writes : List (List Char × String)) (n : List Char) :
    (∃ path text, v.siteName cwd path = some n ∧ lastText cwd path writes = some text ∧
        (s.writeAll v cwd writes).panel.files.siteD n = some text) ∨
      (∀ path, v.siteName cwd path = some n → lastText cwd path writes = none) ∧
        (s.writeAll v cwd writes).panel.files.siteD n = s.panel.files.siteD n := by
  induction writes using List.reverseRecOn with
  | nil => exact .inr ⟨fun _ _ => rfl, rfl⟩
  | append_singleton writes w ih =>
      have hwrites : s.writeAll v cwd (writes ++ [w]) =
          (s.writeAll v cwd writes).writeFile v cwd w.1 w.2 := by
        rw [Host.writeAll, List.foldl_append]
        rfl
      rw [hwrites, writeFile_siteD]
      by_cases hname : v.siteName cwd w.1 = some n
      · refine .inl ⟨w.1, w.2, hname, ?_, by rw [if_pos hname]⟩
        rw [lastText_snoc, if_pos rfl]
      · rw [if_neg hname]
        have hlast : ∀ path, v.siteName cwd path = some n →
            lastText cwd path (writes ++ [w]) = lastText cwd path writes := by
          intro path hpath
          rw [lastText_snoc, if_neg]
          intro hsame
          exact hname ((siteName_congr v cwd hsame).symm.trans hpath)
        rcases ih with ⟨path, text, hpath, htext, hfile⟩ | ⟨hnone, hfile⟩
        · exact .inl ⟨path, text, hpath, (hlast path hpath).trans htext, hfile⟩
        · exact .inr ⟨fun path hpath => (hlast path hpath).trans (hnone path hpath), hfile⟩

theorem readFile_config {s : Host} {path n : List Char} (h : v.siteName cwd path = some n) :
    s.readFile v cwd path = s.panel.files.siteD n := by
  rw [Host.readFile, h]

/-- The certificates that are written restate what was there, or some file is lost. -/
theorem filesKept_writeAll_iff (s t : Host) (site : Website)
    (writes : List (List Char × String)) (hfiles : t.files = (s.writeAll v cwd writes).files)
    (hsites : t.panel.files.siteD = (s.writeAll v cwd writes).panel.files.siteD) :
    s.FilesKept v cwd opens t site ↔ s.Restated v cwd opens site writes := by
  have hread : ∀ path, t.readFile v cwd path =
      (lastText cwd path writes).or (s.readFile v cwd path) := by
    intro path
    rw [← readFile_writeAll, Host.readFile, Host.readFile, hfiles, hsites]
  constructor
  · intro h path text hpath htext
    have hsame : t.readFile v cwd path = s.readFile v cwd path := by
      rcases hpath with hnamed | hconfig
      · exact h.named path hnamed
      · rw [readFile_config hconfig, readFile_config hconfig, h.config]
    rw [← hsame, hread, htext]
    rfl
  · intro h
    refine ⟨?_, fun path hnamed => ?_⟩
    · rw [hsites]
      rcases @writeAll_siteD v cwd s writes (confName site.domain) with
        ⟨path, text, hpath, htext, hfile⟩ | ⟨-, hfile⟩
      · rw [hfile, ← readFile_config hpath, h path text (.inr hpath) htext]
      · exact hfile
    · rw [hread]
      cases htext : lastText cwd path writes with
      | none => rfl
      | some text => exact (h path text (.inl hnamed) htext).symm

/-- The same when the configuration is written too, and repaired. -/
theorem filesKept_rewritten_iff (s t : Host) (site : Website)
    (writes : List (List Char × String)) (text : String) (repaired : List Char → String → String)
    (hfiles : t.files = (s.writeAll v cwd writes).files)
    (hsites : ∀ n, t.panel.files.siteD n =
      (Function.update (s.writeAll v cwd writes).panel.files.siteD (confName site.domain)
        (some text) n).map (repaired n)) :
    s.FilesKept v cwd opens t site ↔ s.Rewritten v cwd opens site writes text repaired := by
  have hconf : t.panel.files.siteD (confName site.domain) =
      some (repaired (confName site.domain) text) := by
    rw [hsites, Function.update_self, Option.map_some]
  have hread : ∀ path, ¬ v.IsConfig cwd site.domain path → t.readFile v cwd path =
      ((lastText cwd path writes).or (s.readFile v cwd path)).map fun old =>
        match v.siteName cwd path with
        | none => old
        | some n => repaired n old := by
    intro path hconfig
    rw [← readFile_writeAll, Host.readFile, Host.readFile]
    cases hname : v.siteName cwd path with
    | none => simp [hfiles]
    | some n =>
        have hne : n ≠ confName site.domain := by
          rintro rfl
          exact hconfig hname
        dsimp only
        rw [hsites, Function.update_of_ne hne]
  constructor
  · intro h
    refine ⟨h.config.symm.trans hconf, fun path hnamed hconfig old hold => ?_⟩
    rw [← h.named path hnamed, hread path hconfig, hold, Option.map_some]
  · rintro ⟨hold, hrest⟩
    refine ⟨hconf.trans hold.symm, fun path hnamed => ?_⟩
    by_cases hconfig : v.IsConfig cwd site.domain path
    · rw [readFile_config hconfig, readFile_config hconfig, hconf, hold]
    · rw [hread path hconfig]
      cases hnow : (lastText cwd path writes).or (s.readFile v cwd path) with
      | none => exact (Option.or_eq_none_iff.mp hnow).2.symm
      | some old => rw [Option.map_some, hrest path hnamed hconfig old hnow]

/-! ## The steps of an upload -/

theorem uploadFile_error (u : UploadWeather) (s : Host) (call : UploadCall) (path : List Char)
    (text : String) : (s.uploadFile v cwd u call path text).2 = u.fails call := by
  rw [Host.uploadFile]
  cases u.fails call with
  | none => rfl
  | some err => cases u.left call <;> rfl

theorem uploadArchive_error (u : UploadWeather) (s : Host)
    (domain publicPEM privatePEM : String) :
    (v.uploadArchive cwd u s domain publicPEM privatePEM).2 = none ↔
      ∀ call ∈ uploadCalls none, u.fails call = none := by
  have hfile : ∀ {s s' : Host} {call : UploadCall} {path : List Char} {text : String}
      {err : Option String}, s.uploadFile v cwd u call path text = (s', err) →
      u.fails call = err := by
    intro s s' call path text err h
    rw [← @uploadFile_error v cwd u s call path text, h]
  simp only [uploadCalls, List.forall_mem_cons, List.not_mem_nil, IsEmpty.forall_iff,
    implies_true, and_true, Service.uploadArchive]
  split
  · rename_i h
    simp [h]
  · rename_i h
    split
    · rename_i h₁
      simp [hfile h₁]
    · rename_i h₁
      split
      · rename_i h₂
        simp [hfile h₂]
      · rename_i h₂
        split
        · rename_i h'
          simp [h']
        · rename_i h'
          split
          · rename_i h₃
            simp [hfile h₃]
          · rename_i h₃
            split
            · rename_i h₄
              simp [hfile h₄]
            · rename_i h₄
              simp [h, h', hfile h₁, hfile h₂, hfile h₃, hfile h₄]

theorem uploadPair_error (u : UploadWeather) (s : Host)
    (domain config publicPEM privatePEM : String) :
    (v.uploadPair cwd u s domain config publicPEM privatePEM).2 = none ↔
      ∀ call ∈ uploadCalls (some config), u.fails call = none := by
  have hmake : (if certPathsFound config = true then none else u.fails .makeLive) = none ↔
      ∀ call ∈ if certPathsFound config = true then ([] : List UploadCall) else [.makeLive],
        u.fails call = none := by
    split_ifs <;> simp
  rw [uploadCalls, List.forall_mem_append, ← hmake, Service.uploadPair]
  simp only [List.forall_mem_cons, List.not_mem_nil, IsEmpty.forall_iff, implies_true, and_true,
    ← @uploadFile_error v cwd u s .writePublic (v.uploadPaths domain config).1 publicPEM]
  cases (if certPathsFound config = true then none else u.fails .makeLive) with
  | some err => simp
  | none =>
  rcases s.uploadFile v cwd u .writePublic (v.uploadPaths domain config).1 publicPEM with ⟨s₁, err₁⟩
  cases err₁ with
  | some err => simp
  | none =>
  dsimp only
  rw [← @uploadFile_error v cwd u s₁ .writePrivate (v.uploadPaths domain config).2
    privatePEM]
  rcases s₁.uploadFile v cwd u .writePrivate (v.uploadPaths domain config).2 privatePEM with
    ⟨s₂, err₂⟩
  cases err₂ <;> simp

/-- The texts that are written when no call fails. -/
theorem mem_writes_calm {u : UploadWeather}
    {calls : List (UploadCall × Option (List Char × String))} {w : List Char × String}
    (hw : w ∈ u.writes calls) (hcalm : ∀ call ∈ calls, u.fails call.1 = none) :
    some w ∈ calls.map Prod.snd := by
  induction calls with
  | nil => cases hw
  | cons call calls ih =>
      obtain ⟨call, target⟩ := call
      obtain ⟨hcall, hcalls⟩ := List.forall_mem_cons.mp hcalm
      rw [UploadWeather.writes, hcall] at hw
      rcases List.mem_append.mp hw with hhere | hthere
      · rw [Option.mem_toList] at hhere
        rw [List.map_cons, hhere]
        exact List.mem_cons_self
      · exact List.mem_cons_of_mem _ (ih hthere hcalls)

/-! ## The steps behind them -/

theorem reload_siteD_map (f : SiteFiles) (e : Weather) (n : List Char) :
    (f.reload e .reload).1.siteD n = (f.siteD n).map (e.repaired n) := by
  cases hold : f.siteD n with
  | none =>
      have hsome := (reload_fst f e .reload).2 n
      rw [hold] at hsome
      exact Option.isNone_iff_eq_none.mp (Option.isSome_eq_false_iff.mp hsome)
  | some text => exact reload_siteD f e n hold

theorem finishUpload_error (t : Host) (e : Weather) (site : Website) :
    (t.finishUpload e site).2 = none ↔ e.Works [.reload, .updateRow, .updateRead] := by
  simp only [Host.finishUpload, SiteFiles.reload, Panel.updateRow, Weather.Works,
    List.forall_mem_cons, List.not_mem_nil, IsEmpty.forall_iff, implies_true, and_true]
  cases e.faults .reload with
  | some err => simp
  | none =>
  cases e.faults .updateRow with
  | some err => simp
  | none => cases e.faults .updateRead <;> simp

theorem finishUpload_sites (t : Host) (e : Weather) (site : Website) :
    (t.finishUpload e site).1.panel.files = (t.panel.files.reload e .reload).1 := by
  simp only [Host.finishUpload, SiteFiles.reload, Panel.updateRow]
  cases e.faults .reload with
  | some err => rfl
  | none =>
  cases e.faults .updateRow with
  | some err => rfl
  | none => cases e.faults .updateRead <;> rfl

/-- The flag is set with the row, also when the row is not read back. -/
theorem finishUpload_flag {t : Host} {site : Website} (hmem : site ∈ t.panel.repo.rows)
    (e : Weather) :
    ((t.finishUpload e site).1.panel.repo.findByID site.id).map Website.ssl =
      some (if e.Works [.reload, .updateRow] then true else site.ssl) := by
  have hrow := @findByID_update site t.panel.repo
    (Website.stamped { site with ssl := true } e.now) hmem rfl
  simp only [Host.finishUpload, SiteFiles.reload, Panel.updateRow, Weather.Works,
    List.forall_mem_cons, List.not_mem_nil, IsEmpty.forall_iff, implies_true, and_true]
  cases e.faults .reload with
  | some err => simp [findByID_of_mem hmem]
  | none =>
  cases e.faults .updateRow with
  | some err => simp [findByID_of_mem hmem]
  | none =>
      have hset := congrArg (Option.map Website.ssl) hrow
      cases e.faults .updateRead <;> simpa [Website.stamped] using hset

section
variable {u : UploadWeather} {s t : Host} {site : Website} {writes : List (List Char × String)}
  (hmem : site ∈ s.panel.repo.rows) (ht : t = s.writeAll v cwd writes)
include hmem ht

/-- The upload stops when no more than the certificates is written. -/
theorem stopped_undone_iff (err : UploadError) :
    (some err ≠ none → s.UploadUndone v cwd opens t site) ↔
      s.Restated v cwd opens site writes := by
  subst ht
  rw [imp_iff_right (by simp), ← filesKept_writeAll_iff s _ site writes rfl rfl]
  refine ⟨Host.UploadUndone.files, fun h => ⟨h, ?_⟩⟩
  rw [writeAll_repo, findByID_of_mem hmem]
  rfl

/-- The upload stops when a part of the configuration is written. -/
theorem left_undone_iff (err : UploadError) (left : String) :
    (some err ≠ none → s.UploadUndone v cwd opens
        { t with panel := { t.panel with files := t.panel.files.withConfig site.domain left } }
        site) ↔
      s.Rewritten v cwd opens site writes left fun _ text => text := by
  subst ht
  rw [imp_iff_right (by simp), ← filesKept_rewritten_iff s { s.writeAll v cwd writes with
    panel := { (s.writeAll v cwd writes).panel with
      files := (s.writeAll v cwd writes).panel.files.withConfig site.domain left } } site writes
    left (fun _ text => text) rfl (fun n => by simp [SiteFiles.withConfig])]
  refine ⟨Host.UploadUndone.files, fun h => ⟨h, ?_⟩⟩
  dsimp only
  rw [writeAll_repo, findByID_of_mem hmem]
  rfl

/-- The upload has written its configuration. -/
theorem finish_undone_iff (e : Weather) (updated : String) :
    ((Host.finishUpload { t with panel := { t.panel with
        files := t.panel.files.withConfig site.domain updated } } e site).2 ≠ none →
      s.UploadUndone v cwd opens (Host.finishUpload { t with panel := { t.panel with
        files := t.panel.files.withConfig site.domain updated } } e site).1 site) ↔
      e.Works [.reload, .updateRow, .updateRead] ∨
        s.Rewritten v cwd opens site writes updated e.repaired ∧
          (e.Works [.reload, .updateRow] → site.ssl = true) := by
  subst ht
  set t' : Host := { s.writeAll v cwd writes with panel := { (s.writeAll v cwd writes).panel with
    files := (s.writeAll v cwd writes).panel.files.withConfig site.domain updated } } with ht'
  have hfiles : (t'.finishUpload e site).1.files = (s.writeAll v cwd writes).files :=
    finishUpload_files t' e site
  have hsites : ∀ n, (t'.finishUpload e site).1.panel.files.siteD n =
      (Function.update (s.writeAll v cwd writes).panel.files.siteD (confName site.domain)
        (some updated) n).map (e.repaired n) := fun n => by
    rw [finishUpload_sites, reload_siteD_map]
    rfl
  have hflag := @finishUpload_flag t' site (by rw [ht']; simpa using hmem) e
  rw [ne_eq, finishUpload_error, ← or_iff_not_imp_left,
    ← filesKept_rewritten_iff s _ site writes updated e.repaired hfiles hsites]
  refine or_congr Iff.rfl ⟨fun h => ⟨h.files, fun hworks => ?_⟩, fun h => ⟨h.1, ?_⟩⟩
  · have hsame := hflag.symm.trans h.flag
    rw [if_pos hworks, Option.some.injEq] at hsame
    exact hsame.symm
  · rw [hflag]
    split_ifs with hworks
    · rw [h.2 hworks]
    · rfl

end

/-- A configuration is empty behind the certificates only when it was before. -/
theorem config_nonempty {s : Host} {writes : List (List Char × String)} {n : List Char}
    (htexts : ∀ w ∈ writes, w.2 ≠ "")
    (h : (s.writeAll v cwd writes).panel.files.siteD n = some "") :
    s.panel.files.siteD n = some "" := by
  rcases @writeAll_siteD v cwd s writes n with ⟨path, text, -, htext, hfile⟩ |
    ⟨-, hfile⟩
  · obtain ⟨w, hw, rfl⟩ := lastText_mem htext
    exact absurd (Option.some.inj (hfile.symm.trans h)) (htexts w hw)
  · exact hfile.symm.trans h

/-- A configuration that is there stays. -/
theorem writeAll_isSome {s : Host} (writes : List (List Char × String)) {n : List Char}
    (h : (s.panel.files.siteD n).isSome) :
    ((s.writeAll v cwd writes).panel.files.siteD n).isSome := by
  rcases @writeAll_siteD v cwd s writes n with ⟨path, text, -, -, hfile⟩ |
    ⟨-, hfile⟩
  · rw [hfile]
    rfl
  · rwa [hfile]

/-- The end of an upload that has read no configuration. -/
theorem written_undone_iff {u : UploadWeather} {s t : Host} {site : Website}
    {writes : List (List Char × String)} (hmem : site ∈ s.panel.repo.rows)
    (ht : t = s.writeAll v cwd writes) (hread : s.configRead u site = none) :
    ((match t.panel.files.writeSiteConfig u.weather .writeConfig site.domain
          (v.updatedConfig site.domain "") with
        | (files, some err) =>
            ({ t with panel := { t.panel with files := files } },
              some (UploadError.site (.plain err)))
        | (files, none) =>
            Host.finishUpload { t with panel := { t.panel with files := files } } u.weather site).2
          ≠ none →
      s.UploadUndone v cwd opens
        (match t.panel.files.writeSiteConfig u.weather .writeConfig site.domain
            (v.updatedConfig site.domain "") with
          | (files, some err) =>
              ({ t with panel := { t.panel with files := files } },
                some (UploadError.site (.plain err)))
          | (files, none) =>
              Host.finishUpload { t with panel := { t.panel with files := files } } u.weather
                site).1 site) ↔
      v.EndsKept cwd opens u s site writes := by
  rw [Service.EndsKept, hread]
  simp only [ne_eq, not_true_eq_false, false_and, if_false, Option.getD_none,
    SiteFiles.writeSiteConfig]
  cases hwrite : u.weather.faults .writeConfig with
  | none =>
      rw [if_neg (by simp)]
      exact finish_undone_iff hmem ht u.weather _
  | some err =>
      rw [if_pos (by simp)]
      cases u.weather.leaves .writeConfig with
      | none => exact stopped_undone_iff hmem ht _
      | some left => exact left_undone_iff hmem ht _ left

/-- The end of an upload over a configuration. -/
theorem updated_undone_iff {u : UploadWeather} {s t : Host} {site : Website} {config : String}
    {writes : List (List Char × String)} (hmem : site ∈ s.panel.repo.rows)
    (ht : t = s.writeAll v cwd writes) (hread : s.configRead u site = some config)
    (hrollback : u.weather.faults .restoreConfig = none) (htexts : ∀ w ∈ writes, w.2 ≠ "") :
    ((match t.panel.files.updateSiteConfig u.weather site.domain
          (v.updatedConfig site.domain config) with
        | (files, some err) =>
            ({ t with panel := { t.panel with files := files } }, some (UploadError.site err))
        | (files, none) =>
            Host.finishUpload { t with panel := { t.panel with files := files } } u.weather site).2
          ≠ none →
      s.UploadUndone v cwd opens
        (match t.panel.files.updateSiteConfig u.weather site.domain
            (v.updatedConfig site.domain config) with
          | (files, some err) =>
              ({ t with panel := { t.panel with files := files } }, some (UploadError.site err))
          | (files, none) =>
              Host.finishUpload { t with panel := { t.panel with files := files } } u.weather
                site).1 site) ↔
      v.EndsKept cwd opens u s site writes := by
  have hold : s.panel.files.siteD (confName site.domain) = some config := by
    rw [Host.configRead] at hread
    split_ifs at hread
    exact hread
  have hsome : (t.panel.files.siteD (confName site.domain)).isSome := by
    rw [ht]
    exact writeAll_isSome writes (by rw [hold]; rfl)
  obtain ⟨current, hcurrent⟩ := Option.isSome_iff_exists.mp hsome
  rw [Service.EndsKept, hread]
  simp only [ne_eq, reduceCtorEq, not_false_eq_true, true_and, Option.getD_some]
  by_cases hbackup : u.weather.faults .backupConfig = none
  · have hgoes : ¬ (u.weather.faults .backupConfig ≠ none ∧
        t.panel.files.siteD (confName site.domain) ≠ none) := fun h => h.1 hbackup
    rw [updateSiteConfig_writes hgoes, SiteFiles.writeSiteConfig, if_neg (not_not.mpr hbackup)]
    cases hwrite : u.weather.faults .writeConfig with
    | some err =>
        rw [if_pos (by simp)]
        cases u.weather.leaves .writeConfig with
        | none => exact stopped_undone_iff hmem ht _
        | some left => exact left_undone_iff hmem ht _ left
    | none =>
    rw [if_neg (by simp)]
    dsimp only
    cases htest : u.weather.accepts (v.updatedConfig site.domain config) with
    | none =>
        rw [if_neg (by simp)]
        exact finish_undone_iff hmem ht u.weather _
    | some err =>
    rw [if_pos (by simp), hcurrent, Option.getD_some]
    dsimp only
    -- The rollback restores what the certificates left of the configuration.
    have hsame : ∀ files : SiteFiles, files = t.panel.files → ∀ err : UploadError,
        (some err ≠ none → s.UploadUndone v cwd opens
          { t with panel := { t.panel with files := files } } site) ↔
          s.Restated v cwd opens site writes := by
      rintro _ rfl err
      exact stopped_undone_iff hmem ht err
    by_cases hempty : current = ""
    · rw [if_neg (not_not.mpr hempty)]
      refine hsame _ ?_ _
      subst hempty
      have hconfig : config = "" := by
        rw [ht] at hcurrent
        exact Option.some.inj (hold.symm.trans (config_nonempty htexts hcurrent))
      rw [hconfig, updatedConfig_empty, ← hcurrent, Function.update_eq_self]
    · rw [if_pos hempty, SiteFiles.writeSiteConfig, hrollback]
      refine hsame _ ?_ _
      dsimp only
      rw [Function.update_idem, ← hcurrent, Function.update_eq_self]
  · obtain ⟨err, herr⟩ := updateSiteConfig_stops ⟨hbackup, by rw [hcurrent]; simp⟩
      (v.updatedConfig site.domain config)
    rw [herr, if_pos hbackup]
    exact stopped_undone_iff hmem ht _

/-- Texts that pass the check are not empty. -/
theorem validatePEM_nonempty {publicPEM privatePEM : String}
    (h : validatePEM publicPEM privatePEM = none) : publicPEM ≠ "" ∧ privatePEM ≠ "" := by
  refine ⟨?_, ?_⟩
  · rintro rfl
    have hpublic : ¬ hasText "" "BEGIN CERTIFICATE" = true := by decide
    simp [validatePEM, hpublic] at h
  · rintro rfl
    have hprivate : ¬ hasText "" "BEGIN" ∨ ¬ hasText "" "PRIVATE KEY" := by decide
    rw [validatePEM, if_pos hprivate] at h
    split_ifs at h

end

/-- An upload that fails has changed nothing exactly when it is refused, or all that is
written up to the step that fails was there. -/
theorem failed_upload_undone_iff (v : Service) (cwd : Directory) (opens : List Char → List Char)
    (u : UploadWeather) (s : Host) (id : ℕ) (site : Website) (input : ManualInput)
    (hfind : s.panel.repo.findByID id = some site)
    (hrollback : u.weather.faults .restoreConfig = none) :
    ((v.updateManual cwd u s id input).2 ≠ none →
        s.UploadUndone v cwd opens (v.updateManual cwd u s id input).1 site) ↔
      v.UploadKept cwd opens u s site input := by
  obtain ⟨hmem, rfl⟩ := findByID_eq_some hfind
  rw [Service.UploadKept, Service.uploadWrites, Service.updateManual, hfind]
  dsimp only
  cases hvalid : validatePEM (withoutCR input.publicPEM) (withoutCR input.privatePEM) with
  | some err =>
      refine iff_of_true (fun _ => ⟨⟨rfl, fun _ _ => rfl⟩, ?_⟩) (.inl (by simp))
      rw [hfind]
      rfl
  | none =>
  obtain ⟨hpublic, hprivate⟩ := validatePEM_nonempty hvalid
  rw [or_iff_right (by simp)]
  dsimp only
  rw [← Host.configRead]
  cases hread : s.configRead u site with
  | none =>
      dsimp only
      have hcalm := @uploadArchive_error v cwd u s site.domain
        (withoutCR input.publicPEM) (withoutCR input.privatePEM)
      have hwrites := @uploadArchive_writes v cwd u s site.domain
        (withoutCR input.publicPEM) (withoutCR input.privatePEM)
      rcases hfiles : v.uploadArchive cwd u s site.domain (withoutCR input.publicPEM)
        (withoutCR input.privatePEM) with ⟨t, err⟩
      rw [hfiles] at hcalm hwrites
      cases err with
      | some err =>
          rw [if_neg fun h => absurd (hcalm.mpr h) (by simp)]
          exact stopped_undone_iff hmem hwrites err
      | none =>
          rw [if_pos (hcalm.mp rfl)]
          exact written_undone_iff hmem hwrites hread
  | some config =>
      dsimp only
      have hcalm := @uploadPair_error v cwd u s site.domain config
        (withoutCR input.publicPEM) (withoutCR input.privatePEM)
      have hwrites := @uploadPair_writes v cwd u s site.domain config
        (withoutCR input.publicPEM) (withoutCR input.privatePEM)
      rcases hfiles : v.uploadPair cwd u s site.domain config (withoutCR input.publicPEM)
        (withoutCR input.privatePEM) with ⟨t, err⟩
      rw [hfiles] at hcalm hwrites
      cases err with
      | some err =>
          rw [if_neg fun h => absurd (hcalm.mpr h) (by simp)]
          exact stopped_undone_iff hmem hwrites err
      | none =>
          rw [if_pos (hcalm.mp rfl)]
          refine updated_undone_iff hmem hwrites hread hrollback fun w hw => ?_
          have htarget := mem_writes_calm hw fun call hcall => hcalm.mp rfl call.1 ?_
          · have htext : w.2 = withoutCR input.publicPEM ∨ w.2 = withoutCR input.privatePEM := by
              rw [List.map_append, List.mem_append] at htarget
              rcases htarget with hmake | hpair
              · split_ifs at hmake <;> simp at hmake
              · simp only [List.map_cons, List.map_nil, List.mem_cons, List.not_mem_nil, or_false,
                  Option.some.injEq] at hpair
                rcases hpair with rfl | rfl
                · exact .inl rfl
                · exact .inr rfl
            rcases htext with htext | htext
            · rwa [htext]
            · rwa [htext]
          · have hcalls := List.mem_map_of_mem (f := Prod.fst) hcall
            rw [List.map_append] at hcalls
            rw [uploadCalls]
            split_ifs at hcalls ⊢ <;> exact hcalls

/-- nginx refuses every configuration. -/
def strictUpload : UploadWeather :=
  { calmUpload with weather := { calmWeather with accepts := fun _ => some "test failed" } }

/-- The website has a certificate and a key. -/
def certHost : Host := { demoHost (some demoConfig) with files := fun _ => some "old" }

/-- There is no room for a certificate. -/
def fullUpload : UploadWeather :=
  { calmUpload with fails := fun call => if call = .makeLive then some "disk full" else none }

theorem failed_upload_undone_demo :
    (demoService.updateManual ⟨[], by simp⟩ fullUpload (demoHost (some "listen 80;")) 1
        demoInputPEM).2 ≠ none ∧
      (demoHost (some "listen 80;")).UploadUndone demoService ⟨[], by simp⟩ id
        (demoService.updateManual ⟨[], by simp⟩ fullUpload (demoHost (some "listen 80;")) 1
          demoInputPEM).1 demoSite := by
  have hfails : (demoService.updateManual ⟨[], by simp⟩ fullUpload
      (demoHost (some "listen 80;")) 1 demoInputPEM).2 ≠ none := by decide
  have hwrites : demoService.uploadWrites fullUpload (demoHost (some "listen 80;")) demoSite.id
      demoInputPEM = [] := by decide
  refine ⟨hfails, (failed_upload_undone_iff demoService ⟨[], by simp⟩ id fullUpload
    (demoHost (some "listen 80;")) 1 demoSite demoInputPEM (by decide) (by decide)).mpr ?_ hfails⟩
  refine .inr ?_
  rw [if_neg (by decide), hwrites]
  rintro path text - htext
  cases htext

/-- The configuration comes back, and the certificate is another one. -/
theorem failed_upload_replaces_certificate :
    (demoService.updateManual ⟨[], by simp⟩ strictUpload certHost 1 demoInputPEM).2 ≠ none ∧
      ¬ certHost.UploadUndone demoService ⟨[], by simp⟩ id
        (demoService.updateManual ⟨[], by simp⟩ strictUpload certHost 1 demoInputPEM).1
          demoSite := by
  refine ⟨by decide, fun h => ?_⟩
  have hnamed : certHost.Names id demoSite "/c.pem".toList :=
    ⟨demoConfig, by decide, _, by decide, rfl⟩
  exact absurd (h.files.named _ hnamed) (by decide)

end GoSite.Website
