import GoSite.GuardedRuns
import GoSite.Interleaving
import GoSite.ManualCertificates

/-!
# Edits of a website, call by call

Every operation that writes a website reads the whole row, changes a part of it and
writes all columns back, and the operations that list websites write too, when the
flag for the certificate is not what the configuration says. Calls of the table and
reads of a configuration are one step each, and any number of operations are under
way. What is not the table is in the answer of each call.
-/
namespace GoSite.Website
open GoStrings GuardedRuns Interleaving

/-- What a user edits, the flag `active` apart. -/
structure SiteDetails where
  name : String
  domain : String
  path : String
  type : String
  upstream : String
  deriving Repr, DecidableEq

def Website.details (site : Website) : SiteDetails :=
  ⟨site.name, site.domain, site.path, site.type, site.upstream⟩

/-- Who writes a row: `Update`, `Toggle`, or one that sets the flag for the certificate. -/
inductive WriteKind where
  | update
  | toggle
  | flag
  deriving Repr, DecidableEq

/-- Files, hooks and nginx. -/
inductive OutsideCall where
  | writeConfig
  | configChanged
  | testConfig
  | setEnabled (active : Bool)
  | reload
  | storePEM
  | updateConfig
  deriving Repr, DecidableEq

inductive WebsiteCall where
  | find (id : ℕ)
  | list
  | validate (i : SiteInput) (id : ℕ)
  | update (kind : WriteKind) (site : Website)
  | readConfig (domain : String)
  | outside (call : OutsideCall)

@[reducible] def WebsiteCall.Reply : WebsiteCall → Type
  | .find _ => Except String (Option Website)
  | .list => Except String (List Website)
  | .validate _ _ => Option SiteError
  | .update _ _ => Except String Website
  | .readConfig _ => Option String
  | .outside _ => Option String

/-- What a call meets: whether it fails, whether the row cannot be read back, what the
configuration holds, and the time. -/
structure EditWeather where
  weather : Weather
  fault : Option String
  readFault : Option String
  config : Option String
  now : ℤ

/-- An edit whose row was written. It has an owner until its operation returns. -/
structure LogEntry where
  owner : Option ℕ
  id : ℕ
  details : Option SiteDetails
  active : Bool
  deriving Repr, DecidableEq

/-- The table, and the edits in the order of their writes. -/
structure EditState where
  repo : WebsiteRepository
  log : List LogEntry

/-- The row that an `UPDATE` leaves. -/
def Website.written (site : Website) (now : ℤ) : Website :=
  { site with
    type := if site.type = "" then websiteTypeStatic else site.type
    updatedAt := now }

def WriteKind.entry (kind : WriteKind) (n : ℕ) (site : Website) : List LogEntry :=
  match kind with
  | .update => [⟨some n, site.id, some site.details, site.active⟩]
  | .toggle => [⟨some n, site.id, none, site.active⟩]
  | .flag => []

/-- The state after a call of the operation `n`, and the answer. -/
def EditState.answer (v : Service) (n : ℕ) (s : EditState) (e : EditWeather) :
    (c : WebsiteCall) → EditState × c.Reply
  | .find id =>
      (s, match e.fault with
        | some err => .error ("find website by id: " ++ err)
        | none => .ok (s.repo.findByID id))
  | .list =>
      (s, match e.fault with
        | some err => .error ("list websites: " ++ err)
        | none => .ok s.repo.rows)
  | .validate i id =>
      (s, v.validateCreateUpdate e.weather s.repo i.domain i.path i.siteType i.upstream id)
  | .update kind site =>
      match e.fault with
      | some err => (s, .error ("update website: " ++ err))
      | none =>
          match s.repo.findByID site.id with
          | none => (s, .error "find website by id: sql: no rows in result set")
          | some _ =>
              (⟨s.repo.update (site.written e.now), s.log ++ kind.entry n (site.written e.now)⟩,
                match e.readFault with
                | some err => .error ("find website by id: " ++ err)
                | none => .ok (site.written e.now))
  | .readConfig _ => (s, e.config)
  | .outside _ => (s, e.fault)

abbrev WebsiteSteps (α : Type) := Program WebsiteCall WebsiteCall.Reply α

abbrev ask (c : WebsiteCall) : WebsiteSteps c.Reply := request c

namespace WebsiteSteps

/-- `syncSSLFromConfig`. -/
def syncSSLFromConfig (site : Website) : WebsiteSteps Website := do
  match ← ask (.readConfig site.domain) with
  | none => return site
  | some config =>
      if certPathsFound config = site.ssl then return site
      else
        match ← ask (.update .flag { site with ssl := certPathsFound config }) with
        | .error _ => return { site with ssl := certPathsFound config }
        | .ok updated => return updated

/-- `FindByID`, as every operation begins. -/
def findByID (id : ℕ) : WebsiteSteps (Except SiteError Website) := do
  match ← ask (.find id) with
  | .error err => return .error (.wrap .notFound "website not found" err)
  | .ok none => return .error (.new .notFound "website not found")
  | .ok (some site) => return .ok site

/-- `Get`. -/
def get (id : ℕ) : WebsiteSteps (Except SiteError Website) := do
  match ← findByID id with
  | .error err => return .error err
  | .ok site => return .ok (← syncSSLFromConfig site)

/-- The loop of `List`. -/
@[grind] def syncAll : List Website → WebsiteSteps (List Website)
  | [] => return []
  | site :: sites => do
      let site ← syncSSLFromConfig site
      return site :: (← syncAll sites)

/-- `List`. -/
def list : WebsiteSteps (Except SiteError (List Website)) := do
  match ← ask .list with
  | .error err => return .error (.wrap .database "list websites failed" err)
  | .ok sites => return .ok (← syncAll sites)

/-- `Update` once the row is written. -/
def finishUpdate (site : Website) : WebsiteSteps (Except SiteError Website) := do
  match ← ask (.outside .writeConfig) with
  | some err => return .error (.wrap .config "write site config" err)
  | none =>
  match ← ask (.outside .configChanged) with
  | some err => return .error (.plain err)
  | none =>
  if site.active then
    match ← ask (.outside .testConfig) with
    | some err => return .error (.new .nginxTestFailed err)
    | none =>
        match ← ask (.outside (.setEnabled true)) with
        | some err => return .error (.plain err)
        | none => return .ok site
  else
    match ← ask (.outside (.setEnabled false)) with
    | some err => return .error (.plain err)
    | none => return .ok site

/-- `Update`. -/
def update (id : ℕ) (i : SiteInput) : WebsiteSteps (Except SiteError Website) := do
  match ← findByID id with
  | .error err => return .error err
  | .ok existing =>
  match ← ask (.validate i id) with
  | some err => return .error err
  | none =>
  match ← ask (.update .update (i.apply existing)) with
  | .error err => return .error (.wrap .database "update website" err)
  | .ok site => finishUpdate site

/-- `Toggle`. -/
def toggle (id : ℕ) : WebsiteSteps (Except SiteError Website) := do
  match ← findByID id with
  | .error err => return .error err
  | .ok site =>
  match ← ask (.outside (.setEnabled !site.active)) with
  | some err => return .error (.plain err)
  | none =>
  match ← ask (.outside .reload) with
  | some err =>
      let _ ← ask (.outside (.setEnabled site.active))
      return .error (.plain err)
  | none =>
  match ← ask (.update .toggle { site with active := !site.active }) with
  | .error err =>
      let _ ← ask (.outside (.setEnabled site.active))
      let _ ← ask (.outside .reload)
      return .error (.wrap .database "update active flag" err)
  | .ok updated => return .ok (← syncSSLFromConfig updated)

/-- `UpdateManual`. -/
def updateManual (id : ℕ) (input : ManualInput) : WebsiteSteps (Option UploadError) := do
  match ← findByID id with
  | .error err => return some (.site err)
  | .ok site =>
  match validatePEM (withoutCR input.publicPEM) (withoutCR input.privatePEM) with
  | some err => return some err
  | none =>
  let _ ← ask (.readConfig site.domain)
  match ← ask (.outside .storePEM) with
  | some err => return some (.site (.plain err))
  | none =>
  match ← ask (.outside .updateConfig) with
  | some err => return some (.site (.plain err))
  | none =>
  match ← ask (.outside .reload) with
  | some err => return some (.site (.plain err))
  | none =>
  match ← ask (.update .flag { site with ssl := true }) with
  | .error err => return some (.site (.wrap .database "update ssl flag" err))
  | .ok _ => return none

end WebsiteSteps

inductive EditOutcome where
  | idle
  | edited (r : Except SiteError Website)
  | seen (r : Except SiteError Website)
  | listed (r : Except SiteError (List Website))
  | uploaded (err : Option UploadError)

inductive EditRequest where
  | get (id : ℕ)
  | list
  | update (id : ℕ) (i : SiteInput)
  | toggle (id : ℕ)
  | updateManual (id : ℕ) (input : ManualInput)
  deriving Repr, DecidableEq

def EditRequest.program : EditRequest → WebsiteSteps EditOutcome
  | .get id => do return .seen (← WebsiteSteps.get id)
  | .list => do return .listed (← WebsiteSteps.list)
  | .update id i => do return .edited (← WebsiteSteps.update id i)
  | .toggle id => do return .edited (← WebsiteSteps.toggle id)
  | .updateManual id input => do return .uploaded (← WebsiteSteps.updateManual id input)

/-- The operation is an `Update` or a `Toggle` that went well. -/
def EditOutcome.succeeded : EditOutcome → Bool
  | .edited (.ok _) => true
  | _ => false

/-- The operation has returned. -/
def LogEntry.release (n : ℕ) (x : LogEntry) : LogEntry :=
  if x.owner = some n then { x with owner := none } else x

@[simp] theorem release_id (n : ℕ) (x : LogEntry) : (x.release n).id = x.id := by
  unfold LogEntry.release
  split_ifs <;> rfl

@[simp] theorem release_details (n : ℕ) (x : LogEntry) : (x.release n).details = x.details := by
  unfold LogEntry.release
  split_ifs <;> rfl

@[simp] theorem release_active (n : ℕ) (x : LogEntry) : (x.release n).active = x.active := by
  unfold LogEntry.release
  split_ifs <;> rfl

theorem release_owner {n m : ℕ} {x : LogEntry} (h : (x.release n).owner = some m) :
    x.owner = some m ∧ m ≠ n := by
  unfold LogEntry.release at h
  split_ifs at h with hn
  exact ⟨h, fun hm => hn (hm ▸ h)⟩

/-- The edits of an operation that returned stand if it went well, and do not count
otherwise. -/
def settle (n : ℕ) (succeeded : Bool) (log : List LogEntry) : List LogEntry :=
  if succeeded then log.map (LogEntry.release n)
  else log.filter fun x => x.owner ≠ some n

abbrev EditPool := Pool EditState ℕ WebsiteCall WebsiteCall.Reply EditOutcome

def settled (n : ℕ) (t : EditPool) : EditPool :=
  match t.threads n with
  | .done o => { t with shared := { t.shared with log := settle n o.succeeded t.shared.log } }
  | .call _ _ => t

inductive EditAction where
  | begin (n : ℕ) (r : EditRequest)
  | call (n : ℕ) (e : EditWeather)

def editStep (v : Service) (s : EditPool) : EditAction → Option EditPool
  | .begin n r => s.start n r.program
  | .call n e => (s.call (EditState.answer v n) n e).map (settled n)

/-- Nothing is under way and nothing was edited yet. -/
def quietEdits (repo : WebsiteRepository) : EditPool := ⟨⟨repo, []⟩, fun _ => .done .idle⟩

def lastDetails (log : List LogEntry) (id : ℕ) : Option SiteDetails :=
  ((log.filter (·.id = id)).filterMap LogEntry.details).getLast?

def lastActive (log : List LogEntry) (id : ℕ) : Option Bool :=
  ((log.filter (·.id = id)).map LogEntry.active).getLast?

/-- The rows hold the last edits. -/
def EditState.Holds (s : EditState) : Prop :=
  ∀ id row, s.repo.findByID id = some row →
    (∀ d, lastDetails s.log id = some d → row.details = d) ∧
      ∀ b, lastActive s.log id = some b → row.active = b

/-- When all have returned, every website is as the last successful edits left it. -/
def EditsKept (s : EditPool) : Prop :=
  (∀ n, ∃ o, s.threads n = .done o) → s.shared.Holds

/-- The operation has written the row of an edit and has not returned. -/
def EditState.Pending (s : EditState) (n : ℕ) : Prop := ∃ x ∈ s.log, x.owner = some n

instance (s : EditState) (n : ℕ) : Decidable (s.Pending n) :=
  inferInstanceAs (Decidable (∃ x ∈ s.log, _))

/-- A write carries over what the row has at that moment, and an edit whose row is
written does not fail after that. -/
def Undisturbed (s : EditPool) : EditAction → Prop
  | .begin _ _ => True
  | .call n e =>
      match s.threads n with
      | .call (.update kind site) _ =>
          match s.shared.repo.findByID site.id with
          | none => True
          | some row =>
              (kind ≠ .update → (site.written e.now).details = row.details) ∧
                (kind = .flag → site.active = row.active) ∧
                  (kind ≠ .flag → e.fault = none → e.readFault = none)
      | .call (.outside _) _ => s.shared.Pending n → e.fault = none
      | _ => True

instance (s : EditPool) (a : EditAction) : Decidable (Undisturbed s a) := by
  cases a with
  | begin n r => exact .isTrue trivial
  | call n e =>
      unfold Undisturbed
      dsimp only
      split
      · split <;> infer_instance
      · infer_instance
      · infer_instance

/-- The call does not write an edit. -/
def WebsiteCall.NoEdit : WebsiteCall → Prop
  | .update kind _ => kind = .flag
  | _ => True

/-- Nothing outside the table fails. -/
def WebsiteCall.Calm : (c : WebsiteCall) → c.Reply → Prop
  | .outside _, reply => reply = none
  | _, _ => True

abbrev WebsiteSteps.Succeeds (p : WebsiteSteps EditOutcome) : Prop :=
  p.Ends (fun o => o.succeeded = true) WebsiteCall.Calm

/-- Once the row of an edit is written, the operation succeeds where nothing fails. -/
def WebsiteCall.Lands : (c : WebsiteCall) → (c.Reply → WebsiteSteps EditOutcome) → Prop
  | .update .flag _, _ => True
  | .update _ _, next => ∀ site, (next (.ok site)).Succeeds
  | _, _ => True

theorem lands_of_noEdit {c : WebsiteCall} (h : c.NoEdit)
    (next : c.Reply → WebsiteSteps EditOutcome) : c.Lands next := by
  cases c with
  | update kind site =>
      cases kind with
      | flag => trivial
      | update => cases h
      | toggle => cases h
  | _ => trivial

/-- A program that writes no edit. -/
abbrev WebsiteSteps.NoEdit {α : Type} (p : WebsiteSteps α) : Prop := p.Every fun c _ => c.NoEdit

section
open WebsiteSteps

theorem lands_bind {α : Type} {p : WebsiteSteps α} {f : α → WebsiteSteps EditOutcome}
    (hp : p.NoEdit) (hf : ∀ a, (f a).Every WebsiteCall.Lands) :
    (p >>= f).Every WebsiteCall.Lands :=
  Program.Every.bind (hp.mono fun _ _ h => lands_of_noEdit h _) hf

theorem findByID_noEdit (id : ℕ) : (findByID id).NoEdit := by
  refine ⟨trivial, fun r => ?_⟩
  match r with
  | .error err => trivial
  | .ok none => trivial
  | .ok (some site) => trivial

theorem syncSSLFromConfig_noEdit (site : Website) : (syncSSLFromConfig site).NoEdit := by
  refine ⟨trivial, fun r => ?_⟩
  match r with
  | none => trivial
  | some config =>
      dsimp only [Program.bind]
      split_ifs
      · trivial
      · refine ⟨rfl, fun r => ?_⟩
        match r with
        | .error err => trivial
        | .ok updated => trivial

theorem syncAll_noEdit (sites : List Website) : (syncAll sites).NoEdit := by
  induction sites with
  | nil => trivial
  | cons site sites ih =>
      exact Program.Every.bind (syncSSLFromConfig_noEdit site) fun _ =>
        Program.Every.bind ih fun _ => trivial

theorem get_noEdit (id : ℕ) : (get id).NoEdit := by
  refine Program.Every.bind (findByID_noEdit id) fun r => ?_
  cases r with
  | error err => trivial
  | ok site => exact Program.Every.bind (syncSSLFromConfig_noEdit site) fun _ => trivial

theorem list_noEdit : WebsiteSteps.list.NoEdit := by
  refine ⟨trivial, fun r => ?_⟩
  match r with
  | .error err => trivial
  | .ok sites =>
      show (syncAll sites >>= _).NoEdit
      exact Program.Every.bind (syncAll_noEdit sites) fun _ => trivial

theorem updateManual_noEdit (id : ℕ) (input : ManualInput) : (updateManual id input).NoEdit := by
  refine Program.Every.bind (findByID_noEdit id) fun r => ?_
  cases r with
  | error err => trivial
  | ok site =>
      dsimp only
      split
      · trivial
      · refine ⟨trivial, fun _ => ⟨trivial, fun r => ?_⟩⟩
        match r with
        | some err => trivial
        | none =>
            refine ⟨trivial, fun r => ?_⟩
            match r with
            | some err => trivial
            | none =>
                refine ⟨trivial, fun r => ?_⟩
                match r with
                | some err => trivial
                | none =>
                    refine ⟨rfl, fun r => ?_⟩
                    match r with
                    | .error err => trivial
                    | .ok site => trivial

theorem finishUpdate_noEdit (site : Website) : (finishUpdate site).NoEdit := by
  refine ⟨trivial, fun r => ?_⟩
  match r with
  | some err => trivial
  | none =>
      refine ⟨trivial, fun r => ?_⟩
      match r with
      | some err => trivial
      | none =>
          dsimp only
          split_ifs
          · refine ⟨trivial, fun r => ?_⟩
            match r with
            | some err => trivial
            | none =>
                refine ⟨trivial, fun r => ?_⟩
                match r with
                | some err => trivial
                | none => trivial
          · refine ⟨trivial, fun r => ?_⟩
            match r with
            | some err => trivial
            | none => trivial

theorem finishUpdate_succeeds (site : Website) :
    (finishUpdate site >>= fun r => .done (.edited r)).Succeeds := by
  rintro _ rfl _ rfl
  dsimp only
  split_ifs
  · rintro _ rfl _ rfl
    rfl
  · rintro _ rfl
    rfl

theorem update_lands (id : ℕ) (i : SiteInput) :
    (update id i >>= fun r => .done (.edited r)).Every WebsiteCall.Lands := by
  unfold WebsiteSteps.update
  rw [Interleaving.bind_assoc]
  refine lands_bind (findByID_noEdit id) fun r => ?_
  cases r with
  | error err => trivial
  | ok existing =>
      refine ⟨trivial, fun r => ?_⟩
      match r with
      | some err => trivial
      | none =>
          refine ⟨fun site => finishUpdate_succeeds site, fun r => ?_⟩
          match r with
          | .error err => trivial
          | .ok site => exact lands_bind (finishUpdate_noEdit site) fun _ => trivial

theorem toggle_lands (id : ℕ) :
    (toggle id >>= fun r => .done (.edited r)).Every WebsiteCall.Lands := by
  unfold WebsiteSteps.toggle
  rw [Interleaving.bind_assoc]
  refine lands_bind (findByID_noEdit id) fun r => ?_
  cases r with
  | error err => trivial
  | ok site =>
      refine ⟨trivial, fun r => ?_⟩
      match r with
      | some err => trivial
      | none =>
          refine ⟨trivial, fun r => ?_⟩
          match r with
          | some err => exact ⟨trivial, fun _ => trivial⟩
          | none =>
              refine ⟨fun updated => ?_, fun r => ?_⟩
              · show ((syncSSLFromConfig updated >>= fun site => .done (Except.ok site)) >>=
                  fun r => .done (.edited r)).Succeeds
                exact Program.Ends.bind (Program.Ends.bind (.of_all _ fun _ => rfl))
              · match r with
                | .error err => exact ⟨trivial, fun _ => ⟨trivial, fun _ => trivial⟩⟩
                | .ok updated =>
                    show ((syncSSLFromConfig updated >>= _) >>= _).Every WebsiteCall.Lands
                    rw [Interleaving.bind_assoc]
                    exact lands_bind (syncSSLFromConfig_noEdit updated) fun _ => trivial

end

/-- Every operation, from its first call on. -/
theorem EditRequest.lands (r : EditRequest) : r.program.Every WebsiteCall.Lands := by
  cases r with
  | get id => exact lands_bind (get_noEdit id) fun _ => trivial
  | list => exact lands_bind list_noEdit fun _ => trivial
  | update id i => exact update_lands id i
  | toggle id => exact toggle_lands id
  | updateManual id input => exact lands_bind (updateManual_noEdit id input) fun _ => trivial

/-- The row of a website after an `UPDATE` of a website that is there. -/
theorem findByID_updated {g : WebsiteRepository} {site : Website} (id : ℕ) :
    (g.update site).findByID id =
      if id = site.id then (g.findByID id).map fun _ => site else g.findByID id := by
  unfold WebsiteRepository.findByID WebsiteRepository.update
  dsimp only
  induction g.rows with
  | nil => simp
  | cons r rows ih =>
      by_cases hr : r.id = id
      · by_cases hid : id = site.id
        · simp [hr, hid]
        · simp [hr, hid]
      · by_cases hs : r.id = site.id
        · have hne : site.id ≠ id := hs ▸ hr
          simpa [hr, hs, hne] using ih
        · simpa [hr, hs] using ih

theorem lastDetails_append (log : List LogEntry) (x : LogEntry) (id : ℕ) :
    lastDetails (log ++ [x]) id =
      if x.id = id then x.details.or (lastDetails log id) else lastDetails log id := by
  unfold lastDetails
  by_cases hid : x.id = id
  · cases hx : x.details with
    | none => simp [hid, hx]
    | some d => simp [hid, hx]
  · simp [hid]

theorem lastActive_append (log : List LogEntry) (x : LogEntry) (id : ℕ) :
    lastActive (log ++ [x]) id = if x.id = id then some x.active else lastActive log id := by
  unfold lastActive
  by_cases hid : x.id = id <;> simp [hid]

theorem lastDetails_release (log : List LogEntry) (n id : ℕ) :
    lastDetails (log.map (LogEntry.release n)) id = lastDetails log id := by
  simp [lastDetails, List.filter_map, List.filterMap_map, Function.comp_def]

theorem lastActive_release (log : List LogEntry) (n id : ℕ) :
    lastActive (log.map (LogEntry.release n)) id = lastActive log id := by
  simp [lastActive, List.filter_map, Function.comp_def]

/-- What is pending belongs to no operation that has returned. -/
theorem not_pending_settle (repo : WebsiteRepository) (log : List LogEntry) (n : ℕ) (b : Bool) :
    ¬ EditState.Pending ⟨repo, settle n b log⟩ n := by
  rintro ⟨x, hx, howner⟩
  unfold settle at hx
  split_ifs at hx
  · obtain ⟨y, -, rfl⟩ := List.mem_map.mp hx
    exact (release_owner howner).2 rfl
  · simp [howner] at hx

theorem pending_settle {repo : WebsiteRepository} {log : List LogEntry} {n m : ℕ} {b : Bool}
    (h : EditState.Pending ⟨repo, settle n b log⟩ m) : EditState.Pending ⟨repo, log⟩ m := by
  obtain ⟨x, hx, howner⟩ := h
  unfold settle at hx
  split_ifs at hx
  · obtain ⟨y, hy, rfl⟩ := List.mem_map.mp hx
    exact ⟨y, hy, (release_owner howner).1⟩
  · exact ⟨x, List.mem_of_mem_filter hx, howner⟩

/-- The edits of an operation that went well stay in force. -/
theorem EditState.Holds.settle {repo : WebsiteRepository} {log : List LogEntry} {n : ℕ} {b : Bool}
    (h : EditState.Holds ⟨repo, log⟩) (hb : EditState.Pending ⟨repo, log⟩ n → b = true) :
    EditState.Holds ⟨repo, settle n b log⟩ := by
  intro id row hrow
  obtain ⟨hdetails, hactive⟩ := h id row hrow
  unfold Website.settle
  split_ifs with hgood
  · refine ⟨fun d hd => hdetails d ?_, fun a ha => hactive a ?_⟩
    · rw [← lastDetails_release log n id]
      exact hd
    · rw [← lastActive_release log n id]
      exact ha
  · have hnone : log.filter (fun x => x.owner ≠ some n) = log := by
      rw [List.filter_eq_self]
      intro x hx
      by_contra howner
      exact hgood (hb ⟨x, hx, by simpa using howner⟩)
    rw [hnone]
    exact ⟨hdetails, hactive⟩

/-- A write that carries over what it does not edit. -/
theorem EditState.Holds.write {s : EditState} {kind : WriteKind} {site row : Website} {n : ℕ}
    (h : s.Holds) (hrow : s.repo.findByID site.id = some row)
    (hdetails : kind ≠ .update → site.details = row.details)
    (hactive : kind = .flag → site.active = row.active) :
    EditState.Holds ⟨s.repo.update site, s.log ++ kind.entry n site⟩ := by
  intro id r hr
  dsimp only at hr ⊢
  rw [findByID_updated] at hr
  by_cases hid : id = site.id
  · subst hid
    rw [if_pos rfl, hrow, Option.map_some, Option.some.injEq] at hr
    subst hr
    obtain ⟨hold, holdActive⟩ := h site.id row hrow
    cases kind with
    | update =>
        simp only [WriteKind.entry, lastDetails_append, lastActive_append, if_true]
        exact ⟨fun d hd => by simpa using hd, fun b hb => by simpa using hb⟩
    | toggle =>
        simp only [WriteKind.entry, lastDetails_append, lastActive_append, if_true, Option.none_or]
        refine ⟨fun d hd => ?_, fun b hb => by simpa using hb⟩
        rw [hdetails nofun]
        exact hold d hd
    | flag =>
        simp only [WriteKind.entry, List.append_nil]
        refine ⟨fun d hd => ?_, fun b hb => ?_⟩
        · rw [hdetails nofun]
          exact hold d hd
        · rw [hactive rfl]
          exact holdActive b hb
  · rw [if_neg hid] at hr
    have hne : site.id ≠ id := fun h => hid h.symm
    obtain ⟨hold, holdActive⟩ := h id r hr
    cases kind with
    | update =>
        simp only [WriteKind.entry, lastDetails_append, lastActive_append, hne, if_false]
        exact ⟨hold, holdActive⟩
    | toggle =>
        simp only [WriteKind.entry, lastDetails_append, lastActive_append, hne, if_false]
        exact ⟨hold, holdActive⟩
    | flag =>
        simp only [WriteKind.entry, List.append_nil]
        exact ⟨hold, holdActive⟩

/-- The invariant of undisturbed runs. -/
structure EditSound (s : EditPool) : Prop where
  rows : s.shared.Holds
  lands : ∀ n, (s.threads n).Every WebsiteCall.Lands
  ends : ∀ n, s.shared.Pending n → WebsiteSteps.Succeeds (s.threads n)
  returned : ∀ n o, s.threads n = .done o → ¬ s.shared.Pending n

theorem editSound_quiet (repo : WebsiteRepository) : EditSound (quietEdits repo) where
  rows id row _ := ⟨nofun, nofun⟩
  lands n := trivial
  ends n h := absurd h fun ⟨x, hx, _⟩ => by cases hx
  returned n o _ := fun ⟨x, hx, _⟩ => by cases hx

theorem pending_entry (repo : WebsiteRepository) {repo' : WebsiteRepository} {log : List LogEntry} {kind : WriteKind}
    {n m : ℕ} {site : Website} (h : EditState.Pending ⟨repo', log ++ kind.entry n site⟩ m) :
    EditState.Pending ⟨repo, log⟩ m ∨ m = n ∧ kind ≠ .flag := by
  obtain ⟨x, hx, howner⟩ := h
  obtain hx | hx := List.mem_append.mp hx
  · exact .inl ⟨x, hx, howner⟩
  · refine .inr ?_
    cases kind with
    | update =>
        obtain rfl := List.mem_singleton.mp hx
        exact ⟨(Option.some.inj howner).symm, nofun⟩
    | toggle =>
        obtain rfl := List.mem_singleton.mp hx
        exact ⟨(Option.some.inj howner).symm, nofun⟩
    | flag => cases hx

/-- A call of an operation, before it is seen whether it has returned. -/
theorem EditSound.answer {v : Service} {s : EditPool} {n : ℕ} {e : EditWeather} {c : WebsiteCall}
    {next : c.Reply → WebsiteSteps EditOutcome} (h : EditSound s)
    (hthread : s.threads n = .call c next) (hgood : Undisturbed s (.call n e)) :
    (s.shared.answer v n e c).1.Holds ∧
      (∀ m, (s.shared.answer v n e c).1.Pending m → s.shared.Pending m ∨ m = n) ∧
        ((s.shared.answer v n e c).1.Pending n →
          WebsiteSteps.Succeeds (next (s.shared.answer v n e c).2)) := by
  have hends : s.shared.Pending n → c.Calm (s.shared.answer v n e c).2 →
      WebsiteSteps.Succeeds (next (s.shared.answer v n e c).2) := by
    intro hpending hcalm
    have hall := h.ends n hpending
    rw [hthread] at hall
    exact hall _ hcalm
  have hlands : c.Lands next := by
    have hall := h.lands n
    rw [hthread] at hall
    exact hall.1
  unfold Undisturbed at hgood
  dsimp only at hgood
  rw [hthread] at hgood
  cases c with
  | find id => exact ⟨h.rows, fun _ hm => .inl hm, fun hp => hends hp trivial⟩
  | list => exact ⟨h.rows, fun _ hm => .inl hm, fun hp => hends hp trivial⟩
  | validate i id => exact ⟨h.rows, fun _ hm => .inl hm, fun hp => hends hp trivial⟩
  | readConfig domain => exact ⟨h.rows, fun _ hm => .inl hm, fun hp => hends hp trivial⟩
  | outside call => exact ⟨h.rows, fun _ hm => .inl hm, fun hp => hends hp (hgood hp)⟩
  | update kind site =>
      have hsame : (s.shared.answer v n e (.update kind site)).1 = s.shared →
          (s.shared.answer v n e (.update kind site)).1.Holds ∧
            (∀ m, (s.shared.answer v n e (.update kind site)).1.Pending m →
              s.shared.Pending m ∨ m = n) ∧
            ((s.shared.answer v n e (.update kind site)).1.Pending n →
              WebsiteSteps.Succeeds (next (s.shared.answer v n e (.update kind site)).2)) := by
        intro hsame
        rw [hsame]
        exact ⟨h.rows, fun _ hm => .inl hm, fun hp => hends hp trivial⟩
      cases hfault : e.fault with
      | some err => exact hsame (by simp only [EditState.answer, hfault])
      | none =>
          cases hrow : s.shared.repo.findByID site.id with
          | none => exact hsame (by simp only [EditState.answer, hfault, hrow])
          | some row =>
              simp only [hrow] at hgood
              obtain ⟨hdetails, hactive, hread⟩ := hgood
              have hstate : (s.shared.answer v n e (.update kind site)).1 =
                  ⟨s.shared.repo.update (site.written e.now),
                    s.shared.log ++ kind.entry n (site.written e.now)⟩ := by
                simp only [EditState.answer, hfault, hrow]
              rw [hstate]
              refine ⟨h.rows.write hrow hdetails hactive, ?_, ?_⟩
              · exact fun m hm => (pending_entry s.shared.repo hm).imp id And.left
              · intro hp
                obtain hp | ⟨-, hkind⟩ := pending_entry s.shared.repo hp
                · exact hends hp trivial
                · have hok : (s.shared.answer v n e (.update kind site)).2 =
                      .ok (site.written e.now) := by
                    simp only [EditState.answer, hfault, hrow, hread hkind hfault]
                  rw [hok]
                  cases kind with
                  | flag => exact absurd rfl hkind
                  | update => exact hlands _
                  | toggle => exact hlands _

/-- One step of one operation. -/
theorem EditSound.step {v : Service} {s t : EditPool} {a : EditAction} (h : EditSound s)
    (hgood : Undisturbed s a) (hst : editStep v s a = some t) : EditSound t := by
  cases a with
  | begin n r =>
      obtain ⟨⟨o, ho⟩, hshared, hthreads⟩ := Pool.start_eq_some hst
      have hidle : ¬ s.shared.Pending n := h.returned n o ho
      refine ⟨hshared ▸ h.rows, fun m => ?_, fun m => ?_, fun m o => ?_⟩
      · rw [hthreads]
        by_cases hm : m = n
        · subst hm
          rw [Function.update_self]
          exact r.lands
        · rw [Function.update_of_ne hm]
          exact h.lands m
      · rw [hthreads, hshared]
        by_cases hm : m = n
        · exact fun hp => absurd (hm ▸ hp) hidle
        · rw [Function.update_of_ne hm]
          exact h.ends m
      · rw [hthreads, hshared]
        by_cases hm : m = n
        · exact fun _ => hm ▸ hidle
        · rw [Function.update_of_ne hm]
          exact h.returned m o
  | call n e =>
      obtain ⟨u, hu, rfl⟩ := Option.map_eq_some_iff.mp hst
      obtain ⟨c, next, hthread, hshared, hthreads⟩ := Pool.call_eq_some hu
      obtain ⟨hrows, hpending, hends⟩ := h.answer (v := v) hthread hgood
      rw [← hshared] at hrows hpending hends
      have hself : u.threads n = next (s.shared.answer v n e c).2 := by
        rw [hthreads, Function.update_self]
      have hother : ∀ m, m ≠ n → u.threads m = s.threads m := by
        intro m hm
        rw [hthreads, Function.update_of_ne hm]
      have hulands : ∀ m, (u.threads m).Every WebsiteCall.Lands := by
        intro m
        by_cases hm : m = n
        · have hall := h.lands n
          rw [hthread] at hall
          rw [hm, hself]
          exact hall.2 _
        · rw [hother m hm]
          exact h.lands m
      have huends : ∀ m, u.shared.Pending m → WebsiteSteps.Succeeds (u.threads m) := by
        intro m hp
        by_cases hm : m = n
        · rw [hm, hself]
          exact hends (hm ▸ hp)
        · rw [hother m hm]
          exact h.ends m ((hpending m hp).resolve_right hm)
      have hureturned : ∀ m o, m ≠ n → u.threads m = .done o → ¬ u.shared.Pending m := by
        intro m o hm hdone hp
        rw [hother m hm] at hdone
        exact h.returned m o hdone ((hpending m hp).resolve_right hm)
      unfold settled
      cases hend : u.threads n with
      | call c' next' =>
          refine ⟨hrows, hulands, huends, fun m o hdone => ?_⟩
          by_cases hm : m = n
          · rw [hm, hend] at hdone
            cases hdone
          · exact hureturned m o hm hdone
      | done o =>
          have hgoes : u.shared.Pending n → o.succeeded = true := by
            intro hp
            have hall := huends n hp
            rw [hend] at hall
            exact hall
          refine ⟨hrows.settle hgoes, hulands, fun m hp => huends m (pending_settle hp), ?_⟩
          intro m o' hdone
          by_cases hm : m = n
          · exact hm ▸ not_pending_settle _ _ _ _
          · exact fun hp => hureturned m o' hm hdone (pending_settle hp)

/-- No edit is lost in an undisturbed run. -/
theorem edits_kept (v : Service) (repo : WebsiteRepository) (actions : List EditAction)
    (h : Guarded (editStep v) Undisturbed (quietEdits repo) actions) :
    Along (editStep v) EditsKept (quietEdits repo) actions :=
  (along_of_guarded (fun _ _ _ hs hgood hst => hs.step hgood hst) (editSound_quiet repo) h).mono
    fun _ hs _ => hs.rows

/-- A website that was created, before anything has read it: its configuration names
certificates and its row has the flag of before. -/
def staleRepo : WebsiteRepository :=
  WebsiteRepository.empty.insert ⟨0, "old", "d.example", "/w/d", "static", "", false, "", true, 0⟩

/-- Nothing fails, and the configuration names both files. -/
def calmEdit : EditWeather :=
  ⟨calmWeather, none, none, some "ssl_certificate /c;\nssl_certificate_key /k;", 0⟩

def renamed : SiteInput := ⟨"new", "dd.example", "/w/d", "", "", true⟩

/-- A `Get` sets the flag, and an `Update` follows. -/
def calmEdits : List EditAction :=
  [.begin 0 (.get 1), .call 0 calmEdit, .call 0 calmEdit, .call 0 calmEdit,
    .begin 1 (.update 1 renamed), .call 1 calmEdit, .call 1 calmEdit, .call 1 calmEdit,
    .call 1 calmEdit, .call 1 calmEdit, .call 1 calmEdit, .call 1 calmEdit]

theorem edits_kept_demo :
    Along (editStep demoService) EditsKept (quietEdits staleRepo) calmEdits :=
  edits_kept demoService staleRepo calmEdits (by decide +kernel)

/-- The `Get` reads the row before the `Update` and writes it back after. -/
def lostEdits : List EditAction :=
  [.begin 0 (.get 1), .call 0 calmEdit, .call 0 calmEdit,
    .begin 1 (.update 1 renamed), .call 1 calmEdit, .call 1 calmEdit, .call 1 calmEdit,
    .call 1 calmEdit, .call 1 calmEdit, .call 1 calmEdit, .call 1 calmEdit, .call 0 calmEdit]

def EditAction.operation : EditAction → ℕ
  | .begin n _ | .call n _ => n

theorem settled_threads (n : ℕ) (t : EditPool) : (settled n t).threads = t.threads := by
  unfold settled
  split <;> rfl

/-- The other operations wait. -/
theorem run_other {v : Service} {s t : EditPool} {actions : List EditAction} {n : ℕ}
    (hrun : GuardedRuns.run (editStep v) s actions = some t)
    (hn : ∀ a ∈ actions, a.operation ≠ n) : t.threads n = s.threads n := by
  induction actions generalizing s with
  | nil =>
      obtain rfl := Option.some.inj hrun
      rfl
  | cons a actions ih =>
      obtain ⟨u, hu, hrun⟩ := Option.bind_eq_some_iff.mp hrun
      rw [ih hrun fun b hb => hn b (List.mem_cons_of_mem _ hb)]
      have hne := hn a List.mem_cons_self
      cases a with
      | begin m r =>
          have hm : n ≠ m := fun h => hne h.symm
          obtain ⟨-, -, hthreads⟩ := Pool.start_eq_some hu
          rw [hthreads, Function.update_of_ne hm]
      | call m e =>
          have hm : n ≠ m := fun h => hne h.symm
          obtain ⟨w, hw, rfl⟩ := Option.map_eq_some_iff.mp hu
          obtain ⟨c, next, -, -, hthreads⟩ := Pool.call_eq_some hw
          rw [settled_threads, hthreads, Function.update_of_ne hm]

def hasReturned : WebsiteSteps EditOutcome → Bool
  | .done _ => true
  | .call _ _ => false

/-- The row has the old name, and the `Update` went well. -/
theorem edit_is_lost :
    ¬ ∀ actions, Along (editStep demoService) EditsKept (quietEdits staleRepo) actions := by
  intro h
  have hlost : ((GuardedRuns.run (editStep demoService) (quietEdits staleRepo) lostEdits).map
      fun s => (hasReturned (s.threads 0) && hasReturned (s.threads 1),
        (s.shared.repo.findByID 1).map fun row => row.details.name,
        (lastDetails s.shared.log 1).map SiteDetails.name)) =
      some (true, some "old", some "new") := by
    decide +kernel
  obtain ⟨s, hs, hfacts⟩ := Option.map_eq_some_iff.mp hlost
  obtain ⟨hreturned, hnames⟩ := Prod.mk.inj hfacts
  obtain ⟨hrow, hlast⟩ := Prod.mk.inj hnames
  rw [Bool.and_eq_true] at hreturned
  have hdone : ∀ p : WebsiteSteps EditOutcome, hasReturned p = true → ∃ o, p = .done o := by
    intro p hp
    cases p with
    | done o => exact ⟨o, rfl⟩
    | call c next => cases hp
  have hall : ∀ n, ∃ o, s.threads n = .done o := by
    intro n
    by_cases hzero : n = 0
    · exact hzero ▸ hdone _ hreturned.1
    · by_cases hone : n = 1
      · exact hone ▸ hdone _ hreturned.2
      · refine ⟨.idle, (run_other hs fun a ha hn => ?_).trans rfl⟩
        have hops : ∀ a ∈ lostEdits, a.operation = 0 ∨ a.operation = 1 := by
          decide +kernel
        obtain h0 | h1 := hops a ha
        · exact hzero (hn ▸ h0)
        · exact hone (hn ▸ h1)
  obtain ⟨row, hfind, hname⟩ := Option.map_eq_some_iff.mp hrow
  obtain ⟨d, hd, hnew⟩ := Option.map_eq_some_iff.mp hlast
  have hkept := ((h lostEdits).last hs hall 1 row hfind).1 d hd
  rw [hkept, hnew] at hname
  exact absurd hname (by decide)

end GoSite.Website
