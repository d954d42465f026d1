import GoSite.RepairOrder

/-!
# Changes of the nginx configuration

A reload tests the configuration and repairs the files that nginx complains about, round
by round; a new global or default configuration is written first, and when the reload
fails only that file is written back. A failed change leaves all files as they were when
no round of repairs changed another one and the file had a text to write back.
-/
namespace GoSite.Website
open GoStrings Paths
open GoSite.Terminal (joinPath)

/-- `Paths`, as far as a reload and a repair read it. -/
structure NginxPaths where
  storage : List Char
  siteD : List Char
  activeD : List Char
  globalConf : List Char
  defaultConf : List Char
  sslDefaultDir : List Char

/-- `repairConfig`. -/
def NginxPaths.repairConfig (p : NginxPaths) : RepairConfig where
  defaultCert := joinPath p.sslDefaultDir "cert.pem".toList
  defaultKey := joinPath p.sslDefaultDir "key.pem".toList
  allowPrefixes := [p.siteD, p.activeD, p.globalConf, p.defaultConf, dirPath p.globalConf,
    joinPath p.storage "webconfig".toList, joinPath p.storage "nginx".toList]

def maxAttempts : ℕ := 8

structure NginxError where
  code : String
  message : List Char
  deriving Repr, DecidableEq

/-- `apperror.New` with `CodeNginxTestFailed`. -/
def testFailed (message : List Char) : NginxError :=
  ⟨"NGINX_TEST_FAILED", if message = [] then "operation failed".toList else message⟩

/-- The contents of the files, by what their paths lead to. -/
abbrev ConfFiles := List Char → Option (List Char)

def ConfFiles.write (files : ConfFiles) (path text : List Char) : ConfFiles :=
  fun other => if other = path then some text else files other

/-- What stays as it is during a change. `links` is `filepath.EvalSymlinks`, and `refuses`
says which files cannot be written. -/
structure NginxHost where
  toLower : Char → Char
  links : List Char → Option (List Char)
  cwd : Directory
  refuses : List Char → Option String

/-- The file a path leads to. -/
def NginxHost.denotes (h : NginxHost) (path : List Char) : List Char := (h.links path).getD path

structure CommandOutput where
  stdout : List Char
  stderr : List Char
  exitCode : ℤ

/-- What `runTest` takes for a passed test. -/
def CommandOutput.ok (out : CommandOutput) : Bool :=
  out.exitCode = 0 ∧ "syntax is ok".toList <:+: out.stdout ++ out.stderr

/-- `\s` of a pattern. -/
def patternSpace (c : Char) : Bool :=
  c = ' ' ∨ c = '\t' ∨ c = '\n' ∨ c = '\r' ∨ c = Char.ofNat 12

/-- A match of `in ([^:\s]+):(\d+)` at the beginning of a text. -/
def locationAt (text : List Char) : Option (List Char × List Char) :=
  let rest := text.drop 3
  let file := rest.takeWhile fun c => c ≠ ':' ∧ ¬ patternSpace c
  let digits := (rest.drop (file.length + 1)).takeWhile Char.isDigit
  if "in ".toList <+: text ∧ file ≠ [] ∧ (rest.drop file.length).head? = some ':' ∧ digits ≠ [] then
    some (file, digits)
  else none

/-- The first match of `nginxErrorLocation`. -/
@[grind] def errorLocation : List Char → Option (List Char × List Char)
  | [] => none
  | c :: cs => (locationAt (c :: cs)).or (errorLocation cs)

/-- What `Sscanf` reads with `%d` into a variable that holds zero. -/
def scanLine (digits : List Char) : ℕ :=
  let n := digits.foldl (fun n c => n * 10 + (c.toNat - '0'.toNat)) 0
  if n < 2 ^ 63 then n else 0

/-- `parseNginxError`. -/
def parseNginxError (output : List Char) : Option ParsedNginxError :=
  let output := trimSpaceChars output
  if output = [] then none
  else
    (errorLocation output).bind fun (file, digits) =>
      if scanLine digits = 0 then none else some ⟨output, file, scanLine digits⟩

section
variable (h : NginxHost) (cfg : RepairConfig)

/-- What `applyRepair` meets when it repairs the file at a path. -/
def NginxHost.repairWeather (files : ConfFiles) (path : List Char) : RepairWeather where
  toLower := h.toLower
  evalSymlinks := h.links
  cwd := h.cwd
  readFile target :=
    match files (h.denotes target) with
    | some text => .ok text
    | none => .error ("open " ++ String.ofList target ++ ": no such file or directory")
  stat path := (files (h.denotes path)).isSome
  writeErr := h.refuses (h.denotes (h.denotes path))

/-- How a round of the repair loop ends. -/
inductive RoundEnd where
  | passed
  | failed (err : NginxError)
  | repaired (files : ConfFiles) (action : RepairAction)

/-- The body of the loop of `TestAndRepair`. -/
def repairRound (files : ConfFiles) : Except String CommandOutput → RoundEnd
  | .error _ => .failed (testFailed "nginx test failed".toList)
  | .ok out =>
      let refused : RoundEnd := .failed (testFailed (trimSpaceChars (out.stderr ++ out.stdout)))
      if out.ok then .passed
      else
        match parseNginxError (out.stderr ++ out.stdout) with
        | none => refused
        | some parsed =>
            let result := applyRepair (h.repairWeather files parsed.file) parsed cfg
            match result.answer with
            | .error err => .failed ⟨"", err.toList⟩
            | .ok none => refused
            | .ok (some action) =>
                .repaired
                  (result.written.elim files
                    (files.write (h.denotes (h.denotes parsed.file))))
                  action

/-- The loop of `TestAndRepair`, with what is left of its attempts. -/
@[grind] def repairLoop (tests : ℕ → Except String CommandOutput) :
    ℕ → ℕ → ConfFiles → List RepairAction → ConfFiles × List RepairAction × Option NginxError
  | 0, _, files, actions =>
      (files, actions, some (testFailed "nginx repair exceeded max attempts".toList))
  | left + 1, attempt, files, actions =>
      match repairRound h cfg files (tests attempt) with
      | .passed => (files, actions, none)
      | .failed err => (files, actions, some err)
      | .repaired files action => repairLoop tests left (attempt + 1) files (actions ++ [action])

end

/-- The runner: whether its reloads are left out, as in local development, and whether the
innermost one is a `*Runner`, which can repair and start nginx. -/
structure NginxRunner where
  noop : Bool
  repairable : Bool

/-- What a reload meets. `test` answers the one test of a runner that cannot repair. -/
structure ReloadWeather where
  beforeReload : Option NginxError
  tests : ℕ → Except String CommandOutput
  test : Option NginxError
  start : Option NginxError
  reload : Option NginxError
  afterReload : Option NginxError

/-- The service with what it meets. -/
structure NginxService where
  host : NginxHost
  runner : NginxRunner
  paths : NginxPaths
  weather : ReloadWeather
  candidate : Option NginxError

namespace NginxService
variable (s : NginxService)

/-- `TestAndRepair` of the service. -/
def testAndRepair (files : ConfFiles) : ConfFiles × List RepairAction × Option NginxError :=
  if s.runner.repairable then
    repairLoop s.host s.paths.repairConfig s.weather.tests maxAttempts 0 files []
  else (files, [], s.weather.test)

/-- `EnsureRunning`. -/
def ensureRunning : Option NginxError :=
  if s.runner.noop then none
  else if s.runner.repairable then s.weather.start
  else none

/-- `Reload`. -/
def reload (files : ConfFiles) : ConfFiles × Option NginxError :=
  match s.weather.beforeReload with
  | some err => (files, some err)
  | none =>
      let (files, _, err) := s.testAndRepair files
      let reloaded := if s.runner.noop then none else s.weather.reload
      (files, err.or (s.ensureRunning.or (reloaded.or s.weather.afterReload)))

/-- A new text for a configuration file, tested, written and loaded. -/
def updateConfig (path text : List Char) (tested : Option NginxError) (files : ConfFiles) :
    ConfFiles × Option NginxError :=
  let file := s.host.denotes path
  let original := (files file).getD []
  match tested, s.host.refuses file with
  | some err, _ => (files, some err)
  | none, some err => (files, some ⟨"", err.toList⟩)
  | none, none =>
      let (files, err) := s.reload (files.write file text)
      match err with
      | none => (files, none)
      | some err => (if original ≠ [] then files.write file original else files, some err)

/-- `TestDefaultConfig`, which puts the candidate into a copy of the global file. -/
def testDefaultConfig (files : ConfFiles) : Option NginxError :=
  if files (s.host.denotes s.paths.globalConf) = none then
    some (testFailed "read nginx.conf".toList)
  else s.candidate

/-- `UpdateGlobalConfig`. -/
def updateGlobalConfig (text : List Char) (files : ConfFiles) : ConfFiles × Option NginxError :=
  s.updateConfig s.paths.globalConf text s.candidate files

/-- `UpdateDefaultConfig`. -/
def updateDefaultConfig (text : List Char) (files : ConfFiles) : ConfFiles × Option NginxError :=
  s.updateConfig s.paths.defaultConf text (s.testDefaultConfig files) files

end NginxService

/-- A change of the configuration. -/
inductive NginxChange where
  | reload
  | global (text : List Char)
  | default (text : List Char)

def NginxChange.run (s : NginxService) (files : ConfFiles) :
    NginxChange → ConfFiles × Option NginxError
  | .reload => s.reload files
  | .global text => s.updateGlobalConfig text files
  | .default text => s.updateDefaultConfig text files

/-! ## Rounds that change nothing -/

/-- The files after so many rounds that each repaired one. -/
@[grind] def filesAt (h : NginxHost) (cfg : RepairConfig)
    (tests : ℕ → Except String CommandOutput) (files : ConfFiles) : ℕ → Option ConfFiles
  | 0 => some files
  | n + 1 =>
      (filesAt h cfg tests files n).bind fun now =>
        match repairRound h cfg now (tests n) with
        | .repaired next _ => some next
        | .passed | .failed _ => none

namespace NginxService
variable (s : NginxService)

/-- The rounds that a reload makes leave the files of a kind as they are. -/
def RepairsKeep (kept : List Char → Prop) (files : ConfFiles) : Prop :=
  s.weather.beforeReload = none → s.runner.repairable = true → ∀ n < maxAttempts, ∀ now next,
    filesAt s.host s.paths.repairConfig s.weather.tests files n = some now →
    filesAt s.host s.paths.repairConfig s.weather.tests files (n + 1) = some next →
    ∀ path, kept path → next path = now path

/-- A file that is written can be written back, and the repairs keep the others; or it had
the new text already, and they keep all. -/
def UpdateUndone (path text : List Char) (tested : Option NginxError) (files : ConfFiles) : Prop :=
  let file := s.host.denotes path
  tested = none → s.host.refuses file = none →
    ((files file).getD [] ≠ [] ∧ s.RepairsKeep (· ≠ file) (files.write file text)) ∨
      (files file = some text ∧ s.RepairsKeep (fun _ => True) (files.write file text))

end NginxService

/-- What is needed for a failed change to be undone. -/
def NginxChange.Undone (s : NginxService) (files : ConfFiles) : NginxChange → Prop
  | .reload => s.RepairsKeep (fun _ => True) files
  | .global text => s.UpdateUndone s.paths.globalConf text s.candidate files
  | .default text => s.UpdateUndone s.paths.defaultConf text (s.testDefaultConfig files) files

/-! ## The rounds -/

/-- A file is the same, or its text has moved forward and is not empty. -/
def FileReach (cfg : RepairConfig) (file file' : Option (List Char)) : Prop :=
  file' = file ∨ ∃ text text', file = some text ∧ file' = some text' ∧ text' ≠ [] ∧
    Reaches cfg text text'

section
variable {h : NginxHost} {cfg : RepairConfig} {tests : ℕ → Except String CommandOutput}
  {files : ConfFiles}

theorem FileReach.trans {a b c : Option (List Char)} (hab : FileReach cfg a b)
    (hbc : FileReach cfg b c) : FileReach cfg a c := by
  rcases hab with rfl | ⟨text, text', ha, hb, hne, hreach⟩
  · exact hbc
  rcases hbc with rfl | ⟨mid, text'', hmid, hc, hne', hreach'⟩
  · exact .inr ⟨text, text', ha, hb, hne, hreach⟩
  · obtain rfl := Option.some.inj (hb.symm.trans hmid)
    exact .inr ⟨text, text'', ha, hc, hne', hreach.trans hreach'⟩

theorem FileReach.antisymm {a b : Option (List Char)} (hab : FileReach cfg a b)
    (hba : FileReach cfg b a) : b = a := by
  rcases hab with hab | ⟨text, text', ha, hb, -, hreach⟩
  · exact hab
  rcases hba with hba | ⟨text₁, text₂, hb', ha', -, hback⟩
  · exact hba.symm
  obtain rfl := Option.some.inj (hb.symm.trans hb')
  obtain rfl := Option.some.inj (ha.symm.trans ha')
  rw [ha, hb, hreach.antisymm hback]

/-- What was written when a repair was made. -/
theorem applyRepair_made {e : RepairWeather} {parsed : ParsedNginxError} {action : RepairAction}
    (hmade : (applyRepair e parsed cfg).answer = .ok (some action)) :
    ∃ text kind updated, e.readFile (e.target parsed.file) = .ok text ∧
      RepairKind.repair (e.certFilesExist cfg) (readLines text) parsed cfg kind = some updated ∧
      (applyRepair e parsed cfg).written = some (['\n'].intercalate updated) := by
  rw [applyRepair] at hmade ⊢
  dsimp only at hmade ⊢
  split_ifs at hmade ⊢ with hallowed
  · cases hread : e.readFile (e.target parsed.file) with
    | error err => simp [hread] at hmade
    | ok text =>
        rw [hread] at hmade
        dsimp only at hmade ⊢
        cases hkind : repairKind (parsed.message.map e.toLower) with
        | none => simp [hkind] at hmade
        | some kind =>
            rw [hkind] at hmade
            dsimp only at hmade ⊢
            cases hrepair : kind.repair (e.certFilesExist cfg) (readLines text) parsed cfg with
            | none => simp [hrepair] at hmade
            | some updated =>
                rw [hrepair] at hmade
                dsimp only at hmade ⊢
                cases herr : e.writeErr with
                | some err => simp [herr] at hmade
                | none => exact ⟨text, kind, updated, rfl, hrepair, rfl⟩
  · cases hmade

theorem NginxHost.text_of_read {path target text : List Char}
    (hread : (h.repairWeather files path).readFile target = .ok text) :
    files (h.denotes target) = some text := by
  rw [NginxHost.repairWeather] at hread
  dsimp only at hread
  cases hfile : files (h.denotes target) with
  | none => simp [hfile] at hread
  | some content =>
      rw [hfile] at hread
      rw [Except.ok.inj hread]

/-- A round moves the files forward. -/
theorem fileReach_round {outcome : Except String CommandOutput} {next : ConfFiles}
    {action : RepairAction} (hround : repairRound h cfg files outcome = .repaired next action)
    (path : List Char) : FileReach cfg (files path) (next path) := by
  cases outcome with
  | error err => cases hround
  | ok out =>
      rw [repairRound] at hround
      dsimp only at hround
      split_ifs at hround with hok
      cases hparsed : parseNginxError (out.stderr ++ out.stdout) with
      | none => simp [hparsed] at hround
      | some parsed =>
          rw [hparsed] at hround
          dsimp only at hround
          cases hanswer : (applyRepair (h.repairWeather files parsed.file) parsed cfg).answer with
          | error err => simp [hanswer] at hround
          | ok made =>
              cases made with
              | none => simp [hanswer] at hround
              | some made =>
                  rw [hanswer] at hround
                  obtain ⟨text, kind, updated, hread, hrepair, hwritten⟩ :=
                    applyRepair_made hanswer
                  obtain ⟨rfl, -⟩ := RoundEnd.repaired.inj hround
                  rw [hwritten, Option.elim_some, ConfFiles.write]
                  split_ifs with hpath
                  · have htext : files path = some text := by
                      rw [hpath]
                      exact NginxHost.text_of_read hread
                    exact .inr ⟨text, _, htext, rfl, (someText_repair hrepair).join_ne_nil,
                      repair_reaches hrepair⟩
                  · exact .inl rfl

theorem filesAt_succ {n : ℕ} {next : ConfFiles}
    (hnext : filesAt h cfg tests files (n + 1) = some next) :
    ∃ now action, filesAt h cfg tests files n = some now ∧
      repairRound h cfg now (tests n) = .repaired next action := by
  obtain ⟨now, hnow, hround⟩ := Option.bind_eq_some_iff.mp hnext
  refine ⟨now, ?_⟩
  cases hend : repairRound h cfg now (tests n) with
  | passed => simp [hend] at hround
  | failed err => simp [hend] at hround
  | repaired next' action =>
      rw [hend] at hround
      obtain rfl := Option.some.inj hround
      exact ⟨action, hnow, rfl⟩

theorem filesAt_isSome_of_le {m n : ℕ} (hle : m ≤ n)
    (hsome : (filesAt h cfg tests files n).isSome) : (filesAt h cfg tests files m).isSome := by
  induction n with
  | zero => rwa [Nat.le_zero.mp hle]
  | succ n ih =>
      rcases Nat.lt_or_eq_of_le hle with hlt | rfl
      · obtain ⟨next, hnext⟩ := Option.isSome_iff_exists.mp hsome
        obtain ⟨now, action, hnow, -⟩ := filesAt_succ hnext
        exact ih (Nat.le_of_lt_succ hlt) (by rw [hnow]; rfl)
      · exact hsome

/-- What comes later was reached from what was before. -/
theorem fileReach_filesAt {m n : ℕ} {now next : ConfFiles} (hle : m ≤ n)
    (hnow : filesAt h cfg tests files m = some now)
    (hnext : filesAt h cfg tests files n = some next) (path : List Char) :
    FileReach cfg (now path) (next path) := by
  induction n generalizing next with
  | zero =>
      obtain rfl := Nat.le_zero.mp hle
      obtain rfl := Option.some.inj (hnow.symm.trans hnext)
      exact .inl rfl
  | succ n ih =>
      rcases Nat.lt_or_eq_of_le hle with hlt | rfl
      · obtain ⟨mid, action, hmid, hround⟩ := filesAt_succ hnext
        exact (ih (Nat.le_of_lt_succ hlt) hmid).trans (fileReach_round hround path)
      · obtain rfl := Option.some.inj (hnow.symm.trans hnext)
        exact .inl rfl

/-- The loop ends with the files of its last round. -/
theorem repairLoop_files {left attempt : ℕ} {now : ConfFiles} {actions : List RepairAction}
    (hnow : filesAt h cfg tests files attempt = some now) :
    ∃ last ≤ attempt + left,
      filesAt h cfg tests files last = some (repairLoop h cfg tests left attempt now actions).1 ∧
      ∀ n ≤ attempt + left, (filesAt h cfg tests files n).isSome → n ≤ last := by
  induction left generalizing attempt now actions with
  | zero => exact ⟨attempt, le_rfl, hnow, fun n hn _ => hn⟩
  | succ left ih =>
      have hstop : (∀ next action, repairRound h cfg now (tests attempt) ≠ .repaired next action) →
          ∀ n ≤ attempt + (left + 1), (filesAt h cfg tests files n).isSome → n ≤ attempt := by
        intro hnone n hn hsome
        by_contra hlt
        obtain ⟨next, hnext⟩ := Option.isSome_iff_exists.mp
          (filesAt_isSome_of_le (show attempt + 1 ≤ n by omega) hsome)
        obtain ⟨mid, action, hmid, hround⟩ := filesAt_succ hnext
        obtain rfl := Option.some.inj (hnow.symm.trans hmid)
        exact hnone next action hround
      rw [repairLoop]
      cases hend : repairRound h cfg now (tests attempt) with
      | passed =>
          exact ⟨attempt, by omega, hnow, hstop fun next action heq => by simp [hend] at heq⟩
      | failed err =>
          exact ⟨attempt, by omega, hnow, hstop fun next action heq => by simp [hend] at heq⟩
      | repaired next action =>
          have hnext : filesAt h cfg tests files (attempt + 1) = some next := by
            rw [filesAt, hnow, Option.bind_some, hend]
          obtain ⟨last, hlast, hfiles, hmost⟩ := @ih (attempt + 1) next (actions ++ [action]) hnext
          exact ⟨last, by omega, hfiles, fun n hn => hmost n (by omega)⟩

end

/-! ## Failed changes -/

namespace NginxService
variable {s : NginxService} {files : ConfFiles} {path text : List Char}

/-- Files of a kind are as before after all rounds exactly when each round kept them. -/
theorem testAndRepair_keeps_iff (kept : List Char → Prop)
    (hbefore : s.weather.beforeReload = none) :
    (∀ path, kept path → (s.testAndRepair files).1 path = files path) ↔
      s.RepairsKeep kept files := by
  rw [testAndRepair, RepairsKeep]
  by_cases hrepairs : s.runner.repairable = true
  · rw [if_pos hrepairs]
    obtain ⟨last, hlast, hfiles, hmost⟩ :=
      @repairLoop_files s.host s.paths.repairConfig s.weather.tests files maxAttempts 0 files [] rfl
    rw [Nat.zero_add] at hlast hmost
    generalize (repairLoop s.host s.paths.repairConfig s.weather.tests maxAttempts 0 files []).1 =
      final at hfiles ⊢
    constructor
    · intro hsame _ _ n hn now next hnow hnext path hpath
      have hle : n + 1 ≤ last := hmost (n + 1) hn (by rw [hnext]; rfl)
      have hto := fileReach_filesAt (Nat.le_succ n) hnow hnext path
      have hback := (fileReach_filesAt hle hnext hfiles path).trans
        (hsame path hpath ▸ fileReach_filesAt (Nat.zero_le n) rfl hnow path)
      exact hto.antisymm hback
    · intro hkeep path hpath
      have hall : ∀ n ≤ last, ∀ now,
          filesAt s.host s.paths.repairConfig s.weather.tests files n = some now →
          now path = files path := by
        intro n
        induction n with
        | zero =>
            intro _ now hnow
            rw [← Option.some.inj hnow]
        | succ n ih =>
            intro hn next hnext
            obtain ⟨now, action, hnow, -⟩ := filesAt_succ hnext
            rw [hkeep hbefore hrepairs n (by omega) now next hnow hnext path hpath]
            exact ih (by omega) now hnow
      exact hall last le_rfl final hfiles
  · rw [if_neg hrepairs]
    exact iff_of_true (fun _ _ => rfl) fun _ h => absurd h hrepairs

/-- A reload leaves files of a kind as they were exactly when its repairs do. -/
theorem reload_keeps_iff (kept : List Char → Prop) :
    (∀ path, kept path → (s.reload files).1 path = files path) ↔ s.RepairsKeep kept files := by
  rw [reload]
  cases hbefore : s.weather.beforeReload with
  | some err =>
      refine iff_of_true (fun _ _ => rfl) fun h => ?_
      rw [hbefore] at h
      cases h
  | none => exact testAndRepair_keeps_iff kept hbefore

theorem reload_fileReach (path : List Char) :
    FileReach s.paths.repairConfig (files path) ((s.reload files).1 path) := by
  rw [reload]
  cases s.weather.beforeReload with
  | some err => exact .inl rfl
  | none =>
      dsimp only
      rw [testAndRepair]
      split_ifs
      · obtain ⟨last, -, hfiles, -⟩ :=
          @repairLoop_files s.host s.paths.repairConfig s.weather.tests files maxAttempts 0 files
            [] rfl
        exact fileReach_filesAt (Nat.zero_le last) rfl hfiles path
      · exact .inl rfl

theorem write_self {file : List Char} (hfile : files file = some text) :
    files.write file text = files := by
  funext other
  rw [ConfFiles.write]
  split_ifs with hother
  · rw [hother, hfile]
  · rfl

theorem updateConfig_undone_iff {tested : Option NginxError}
    (hfails : (s.updateConfig path text tested files).2 ≠ none) :
    (s.updateConfig path text tested files).1 = files ↔ s.UpdateUndone path text tested files := by
  rw [updateConfig.eq_def] at hfails ⊢
  rw [UpdateUndone]
  dsimp only at hfails ⊢
  set file := s.host.denotes path
  cases htested : tested with
  | some err => exact iff_of_true rfl fun h => by cases h
  | none =>
  cases hrefuses : s.host.refuses file with
  | some err => exact iff_of_true rfl fun _ h => by cases h
  | none =>
  rw [htested, hrefuses] at hfails
  dsimp only at hfails ⊢
  simp only [forall_true_left]
  have hkeeps := @reload_keeps_iff s (files.write file text)
  have hreach := @reload_fileReach s (files.write file text) file
  generalize s.reload (files.write file text) = result at hfails hkeeps hreach ⊢
  obtain ⟨final, err⟩ := result
  cases err with
  | none => exact absurd rfl hfails
  | some err =>
      dsimp only at hkeeps hreach ⊢
      by_cases horiginal : (files file).getD [] = []
      · rw [if_neg (not_not.mpr horiginal)]
        constructor
        · intro hfinal
          have hfile : files file = some text := by
            rw [hfinal, ConfFiles.write, if_pos rfl] at hreach
            rcases hreach with hsame | ⟨old, new, -, hnew, hne, -⟩
            · exact hsame
            · rw [hnew] at horiginal
              exact absurd horiginal hne
          refine .inr ⟨hfile, (hkeeps fun _ => True).mp fun other _ => ?_⟩
          rw [hfinal, write_self hfile]
        · rintro (⟨hne, -⟩ | ⟨hfile, hkeep⟩)
          · exact absurd horiginal hne
          · funext other
            rw [(hkeeps fun _ => True).mpr hkeep other trivial, write_self hfile]
      · rw [if_pos horiginal]
        have hfile : files file = some ((files file).getD []) := by
          cases hold : files file with
          | none => simp [hold] at horiginal
          | some old => rfl
        have hothers : (∀ other, other ≠ file → final other = files.write file text other) →
            final.write file ((files file).getD []) = files := by
          intro hsame
          funext other
          rw [ConfFiles.write]
          split_ifs with hother
          · rw [hother]
            exact hfile.symm
          · rw [hsame other hother, ConfFiles.write, if_neg hother]
        constructor
        · intro hfinal
          refine .inl ⟨horiginal, (hkeeps (· ≠ file)).mp fun other hother => ?_⟩
          have hsame := congrFun hfinal other
          rw [ConfFiles.write, if_neg hother] at hsame
          rw [hsame, ConfFiles.write, if_neg hother]
        · rintro (⟨-, hkeep⟩ | ⟨-, hkeep⟩)
          · exact hothers ((hkeeps (· ≠ file)).mpr hkeep)
          · exact hothers fun other _ => (hkeeps fun _ => True).mpr hkeep other trivial

end NginxService

/-- A change that fails leaves every file as it was exactly when what is written can be
written back and the rounds of repairs keep the other files. -/
theorem failed_change_undone_iff (s : NginxService) (files : ConfFiles) (change : NginxChange)
    (hfails : (change.run s files).2 ≠ none) :
    (change.run s files).1 = files ↔ change.Undone s files := by
  cases change with
  | reload =>
      have hkeeps := @NginxService.reload_keeps_iff s files fun _ => True
      rw [NginxChange.Undone, ← hkeeps]
      exact ⟨fun h path _ => congrFun h path, fun h => funext fun path => h path trivial⟩
  | global text => exact NginxService.updateConfig_undone_iff hfails
  | default text => exact NginxService.updateConfig_undone_iff hfails

/-- The first test complains about the file of a site, and the second one about nothing
that can be repaired. -/
def brokenSite : NginxService where
  host := ⟨Char.toLower, some, ⟨[], plain_nil⟩, fun _ => none⟩
  runner := ⟨false, true⟩
  paths := ⟨"/s".toList, "/s".toList, "/t".toList, "/n".toList, "/d".toList, "/c".toList⟩
  weather :=
    { beforeReload := none
      tests := fun n => .ok ⟨[], if n = 0 then "unexpected in /s/a:1".toList else ['x'], 1⟩
      test := none
      start := none
      reload := none
      afterReload := none }
  candidate := none

def brokenFiles : ConfFiles := fun path =>
  if path = "/n".toList then some ['a'] else if path = "/s/a".toList then some ['x', ';'] else none

theorem failed_change_undone_broken :
    ((NginxChange.global ['b']).run brokenSite brokenFiles).1 = brokenFiles ↔
      (NginxChange.global ['b']).Undone brokenSite brokenFiles :=
  failed_change_undone_iff brokenSite brokenFiles (.global ['b']) (by decide)

/-- The global file is written back, but the line of the site stays commented out. -/
theorem repaired_site_stays :
    ((NginxChange.global ['b']).run brokenSite brokenFiles).2 ≠ none ∧
      ((NginxChange.global ['b']).run brokenSite brokenFiles).1 "/n".toList = some ['a'] ∧
      brokenFiles "/s/a".toList = some ['x', ';'] ∧
      ((NginxChange.global ['b']).run brokenSite brokenFiles).1 "/s/a".toList =
        some "# gosite-repair: x;".toList := by
  refine ⟨by decide, by decide, by decide, by decide⟩

end GoSite.Website
