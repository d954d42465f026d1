import GoSite.GuardedRuns
import GoSite.Interleaving
import GoSite.RemoteResolvers

/-!
# Resolve tokens

A preview comes with a token, under which the cache keeps the plan. An install that
brings the token takes the plan out of the cache and does not resolve anew. Any number
of requests are under way: each access of the cache, each look at the clock and each
answer from outside is one step.
-/
namespace GoSite.Plugin
open GoStrings GuardedRuns Interleaving

/-- `cachedResolve`. -/
structure CachedResolve where
  source : RemoteSource
  plan : FetchPlan
  expiresAt : ℤ
  deriving Repr, DecidableEq

/-- What was put into the cache, and the preview it was put there for. -/
structure Issue where
  token : String
  entry : CachedResolve
  preview : ResolvePreview
  deriving Repr, DecidableEq

/-- A token that was honoured: the source it was given with and the time. -/
structure Honour where
  token : String
  given : RemoteSource
  entry : CachedResolve
  time : ℤ
  deriving Repr, DecidableEq

/-- The clock, the map of the cache and its history, newest first. -/
structure TokenState where
  now : ℤ
  items : String → Option CachedResolve
  issues : List Issue
  honours : List Honour

/-- What the service is built from. -/
structure RemoteService where
  net : RemotePackages
  cfg : RemoteConfig
  fetcher : Fetcher

/-- What happens to a step: the time that passes before it, and the answers from
outside. -/
structure RemoteWeather where
  elapsed : ℕ
  raw : RawFiles
  answers : List Http.Answer
  token : Except String String
  built : Except RemoteError (List UInt8)

/-- `accept` is the end of `Consume`, which looks at the clock, with the comparison of
the sources, which looks at nothing else. -/
inductive RemoteCall where
  | resolve (source : RemoteSource)
  | headSize (url : String)
  | randomToken
  | clock
  | insert (i : Issue)
  | take (token : String)
  | accept (token : String) (given : RemoteSource) (entry : CachedResolve)
  | build (plan : BuildPlan)
  | download (url sha256 : String)

@[reducible] def RemoteCall.Reply : RemoteCall → Type
  | .resolve _ => Except RemoteError (FetchPlan × ResolvePreview)
  | .headSize _ => Except FetchError ℤ
  | .randomToken => Except String String
  | .clock => ℤ
  | .insert _ => Unit
  | .take _ => Option CachedResolve
  | .accept _ _ _ => Bool
  | .build _ | .download _ _ => Except RemoteError (List UInt8)

def sameSource (net : RemotePackages) (a b : RemoteSource) : Bool :=
  net.equalFold (trimSpace a.type) (trimSpace b.type) &&
    trimSpace a.url = trimSpace b.url &&
    trimSpace a.repo = trimSpace b.repo &&
    trimSpace a.tag = trimSpace b.tag &&
    net.equalFold (trimSpace a.sha256) (trimSpace b.sha256)

/-- The answer to a call. -/
def RemoteService.answer (S : RemoteService) (s : TokenState) (e : RemoteWeather) :
    (c : RemoteCall) → TokenState × c.Reply
  | .resolve source => ({ s with now := s.now + e.elapsed }, resolveSource S.net S.cfg e.raw source)
  | .headSize url =>
      ({ s with now := s.now + e.elapsed },
        (S.fetcher.headSize S.net.toNetPackages url.toList e.answers).2)
  | .randomToken => ({ s with now := s.now + e.elapsed }, e.token)
  | .clock => ({ s with now := s.now + e.elapsed }, s.now + e.elapsed)
  | .insert i =>
      ({ s with
        now := s.now + e.elapsed
        items := Function.update s.items i.token (some i.entry)
        issues := i :: s.issues }, ())
  | .take token =>
      ({ s with
        now := s.now + e.elapsed
        items := Function.update s.items token none }, s.items token)
  | .accept token given entry =>
      let now := s.now + e.elapsed
      if ¬ entry.expiresAt < now ∧ sameSource S.net entry.source given = true then
        ({ s with now := now, honours := ⟨token, given, entry, now⟩ :: s.honours }, true)
      else ({ s with now := now }, false)
  | .build _ => ({ s with now := s.now + e.elapsed }, e.built)
  | .download url sha256 =>
      ({ s with now := s.now + e.elapsed },
        (S.fetcher.fetch S.net.toNetPackages url.toList sha256.toList e.answers).2.mapError .fetch)

/-- What a request returned. A plan goes with its error, if there is one. -/
inductive RemoteOutcome where
  | idle
  | previewed (source : RemoteSource) (result : Except RemoteError ResolvePreview)
  | fetched (given : RemoteSource) (token : String) (plan : FetchPlan) (data : List UInt8)
      (err : Option RemoteError)

abbrev RemoteSteps := Program RemoteCall RemoteCall.Reply RemoteOutcome

/-- `NewResolveCache`. -/
def newTTL (ttl : ℤ) : ℤ := if ttl ≤ 0 then 15 * 60 * 10 ^ 9 else ttl

/-- The digest that `ResolveAndFetch` fills in. -/
def fillDigest (net : RemotePackages) (plan : FetchPlan) (data : List UInt8) : FetchPlan :=
  if trimSpace plan.sha256 = "" ∧ data ≠ [] then
    { plan with sha256 := net.digest data, resolvedDigest := net.digest data }
  else plan

namespace RemoteService
variable (S : RemoteService)

/-- `Resolve` from the issue of the token on. -/
def issueToken (source : RemoteSource) (plan : FetchPlan) (preview : ResolvePreview) :
    RemoteSteps :=
  .call .randomToken fun
    | .error err =>
        .done (.previewed source (.error (.app (.wrap .pluginOperation resolveFailed err))))
    | .ok token => .call .clock fun now =>
        let expires := now + newTTL S.cfg.resolveTokenTTL
        .call (.insert ⟨token, ⟨source, plan, expires⟩, preview⟩) fun _ =>
          .done (.previewed source (.ok { preview with
            resolveToken := token
            resolveExpiresAt := S.net.formatRFC3339 expires }))

/-- `Resolve` with what the resolver returned. -/
def preview (source : RemoteSource) (plan : FetchPlan) (preview : ResolvePreview) : RemoteSteps :=
  if preview.url ≠ "" then
    .call (.headSize preview.url) fun
      | .ok size =>
          if 0 < size then S.issueToken source plan { preview with size := size }
          else S.issueToken source plan preview
      | .error _ => S.issueToken source plan preview
  else S.issueToken source plan preview

/-- `Resolve`. -/
def resolve (source : RemoteSource) : RemoteSteps :=
  if ¬ S.cfg.enabled then
    .done (.previewed source (.error (.invalidInput remoteInstallDisabled)))
  else
    .call (.resolve source) fun
      | .error err => .done (.previewed source (.error err))
      | .ok (plan, preview) => S.preview source plan preview

/-- The end of `ResolveAndFetch`, with what `Fetch` returned. -/
def finishFetch (given : RemoteSource) (token : String) (plan : FetchPlan) :
    Except RemoteError (List UInt8) → RemoteSteps
  | .error err => .done (.fetched given token plan [] (some err))
  | .ok data => .done (.fetched given token (fillDigest S.net plan data) data none)

/-- `ResolveAndFetch` from the `Fetch` of the plan on. -/
def fetchPlan (given : RemoteSource) (token : String) (plan : FetchPlan) : RemoteSteps :=
  if ¬ S.cfg.enabled then
    S.finishFetch given token plan (.error (.invalidInput remoteInstallDisabled))
  else if plan.inlineArtifact ≠ [] then S.finishFetch given token plan (.ok plan.inlineArtifact)
  else
    match plan.build with
    | some spec => .call (.build spec) fun r => S.finishFetch given token plan r
    | none => .call (.download plan.url plan.sha256) fun r => S.finishFetch given token plan r

/-- `ResolveAndFetch`. -/
def resolveAndFetch (given : RemoteSource) (token : String) : RemoteSteps :=
  if trimSpace token ≠ "" then
    .call (.take token) fun
      | none => .done (.fetched given token .zero [] (some (.invalidInput resolveStale)))
      | some entry => .call (.accept token given entry) fun
          | true => S.fetchPlan given token entry.plan
          | false => .done (.fetched given token .zero [] (some (.invalidInput resolveStale)))
  else
    .call (.resolve given) fun
      | .error err => .done (.fetched given token .zero [] (some err))
      | .ok (plan, _) => S.fetchPlan given token plan

end RemoteService

inductive RemoteRequest where
  | resolve (source : RemoteSource)
  | resolveAndFetch (source : RemoteSource) (token : String)
  deriving Repr, DecidableEq

def RemoteRequest.program (S : RemoteService) : RemoteRequest → RemoteSteps
  | .resolve source => S.resolve source
  | .resolveAndFetch source token => S.resolveAndFetch source token

abbrev RemotePool := Pool TokenState ℕ RemoteCall RemoteCall.Reply RemoteOutcome

inductive RemoteAction where
  | begin (n : ℕ) (r : RemoteRequest)
  | call (n : ℕ) (e : RemoteWeather)

def remoteStep (S : RemoteService) (s : RemotePool) : RemoteAction → Option RemotePool
  | .begin n r => s.start n (r.program S)
  | .call n e => s.call S.answer n e

/-- The service as it starts: an empty cache and no request under way. -/
def quietRemote (now : ℤ) : RemotePool :=
  ⟨⟨now, fun _ => none, [], []⟩, fun _ => .done .idle⟩

/-- The sources agree in what the resolvers read of them, up to the white space around
it and to the case of type and digest. -/
structure RemoteSource.Agrees (net : RemotePackages) (a b : RemoteSource) : Prop where
  type : (trimSpace a.type).toList.map net.fold = (trimSpace b.type).toList.map net.fold
  url : trimSpace a.url = trimSpace b.url
  repo : trimSpace a.repo = trimSpace b.repo
  tag : trimSpace a.tag = trimSpace b.tag
  sha256 : (trimSpace a.sha256).toList.map net.fold = (trimSpace b.sha256).toList.map net.fold

/-- The text is the SHA-256 of the bytes, up to the white space around it and to case. -/
def RemotePackages.Names (net : RemotePackages) (sha256 : String) (data : List UInt8) : Prop :=
  sha256 = net.digest data ∨ net.lower (trimSpace sha256) = net.digest data

/-- The issue holds the plan of a resolver and its preview. -/
def Issue.Computed (S : RemoteService) (i : Issue) : Prop :=
  ∃ raw p size, resolveSource S.net S.cfg raw i.entry.source = .ok (i.entry.plan, p) ∧
    i.preview = { p with size := size }

/-- What was previewed is what is installed. -/
structure PreviewBound (S : RemoteService) (s : RemotePool) : Prop where
  /-- A token is honoured at most as often as it was issued. -/
  once : ∀ token, s.shared.honours.countP (fun h => h.token = token) ≤
    s.shared.issues.countP (fun i => i.token = token)
  computed : ∀ i ∈ s.shared.issues, i.Computed S
  honoured : ∀ h ∈ s.shared.honours, ∃ i ∈ s.shared.issues, i.token = h.token ∧
    i.entry = h.entry ∧ i.entry.source.Agrees S.net h.given ∧ h.time ≤ i.entry.expiresAt
  previewed : ∀ n source preview, s.threads n = .done (.previewed source (.ok preview)) →
    ∃ i ∈ s.shared.issues, i.entry.source = source ∧
      preview = { i.preview with
        resolveToken := i.token
        resolveExpiresAt := S.net.formatRFC3339 i.entry.expiresAt }
  fetched : ∀ n given token plan data,
    s.threads n = .done (.fetched given token plan data none) →
      (data ≠ [] ∨ trimSpace plan.sha256 ≠ "" → S.net.Names plan.sha256 data) ∧
      (trimSpace token ≠ "" → ∃ h ∈ s.shared.honours, h.token = token ∧ h.given = given ∧
        ∃ i ∈ s.shared.issues, i.token = token ∧ i.entry = h.entry ∧
          plan = fillDigest S.net i.entry.plan data ∧
          (trimSpace i.preview.sha256 ≠ "" → plan.sha256 = i.preview.sha256))

/-- The next step of the request looks at a token of the text. -/
def accepts (token : String) : RemoteSteps → Prop
  | .call (.accept t _ _) _ => t = token
  | _ => False

/-- What a call is to keep: only plans that were resolved enter the cache, and only an
entry that was just taken is looked at. -/
def RemoteService.good (S : RemoteService) (s : TokenState) :
    (c : RemoteCall) → (c.Reply → RemoteSteps) → Prop
  | .insert i, next => i.Computed S ∧ ∀ r token, ¬ accepts token (next r)
  | .take taken, next => (∀ token, ¬ accepts token (next none)) ∧
      ∀ entry token, accepts token (next (some entry)) → token = taken
  | .accept taken _ entry, next =>
      (∃ i ∈ s.issues, i.token = taken ∧ i.entry = entry) ∧ ∀ r token, ¬ accepts token (next r)
  | _, next => ∀ r token, ¬ accepts token (next r)

/-- What is cached was issued, and what was honoured was issued for the source and in
time. -/
structure TokenState.Kept (S : RemoteService) (s : TokenState) : Prop where
  computed : ∀ i ∈ s.issues, i.Computed S
  cached : ∀ token entry, s.items token = some entry →
    ∃ i ∈ s.issues, i.token = token ∧ i.entry = entry
  honoured : ∀ h ∈ s.honours, ∃ i ∈ s.issues, i.token = h.token ∧ i.entry = h.entry ∧
    i.entry.source.Agrees S.net h.given ∧ h.time ≤ i.entry.expiresAt

/-- What is known of the result of a request. -/
def RemoteOutcome.Sound (S : RemoteService) (s : TokenState) : RemoteOutcome → Prop
  | .previewed source (.ok preview) => ∃ i ∈ s.issues, i.entry.source = source ∧
      preview = { i.preview with
        resolveToken := i.token
        resolveExpiresAt := S.net.formatRFC3339 i.entry.expiresAt }
  | .fetched given token plan data none =>
      (data ≠ [] ∨ trimSpace plan.sha256 ≠ "" → S.net.Names plan.sha256 data) ∧
      (trimSpace token ≠ "" → ∃ h ∈ s.honours, h.token = token ∧ h.given = given ∧
        plan = fillDigest S.net h.entry.plan data)
  | _ => True

/-- The history only grows. -/
structure TokenState.Grows (s t : TokenState) : Prop where
  issues : ∀ i ∈ s.issues, i ∈ t.issues
  honours : ∀ h ∈ s.honours, h ∈ t.honours

section
variable {S : RemoteService} {s t : TokenState}

theorem TokenState.Grows.refl (s : TokenState) : s.Grows s := ⟨fun _ h => h, fun _ h => h⟩

theorem RemoteOutcome.Sound.mono {o : RemoteOutcome} (hst : s.Grows t) (h : o.Sound S s) :
    o.Sound S t := by
  cases o with
  | idle => trivial
  | previewed source result =>
      cases result with
      | error err => trivial
      | ok preview =>
          obtain ⟨i, hi, hrest⟩ := h
          exact ⟨i, hst.issues i hi, hrest⟩
  | fetched given token plan data err =>
      cases err with
      | some err => trivial
      | none =>
          refine ⟨h.1, fun htoken => ?_⟩
          obtain ⟨g, hg, hrest⟩ := h.2 htoken
          exact ⟨g, hst.honours g hg, hrest⟩

def tokenProtocol (S : RemoteService) :
    Protocol TokenState RemoteCall RemoteCall.Reply RemoteOutcome where
  rely := TokenState.Grows
  refl := TokenState.Grows.refl
  trans h h' := ⟨fun i hi => h'.issues i (h.issues i hi), fun i hi => h'.honours i (h.honours i hi)⟩
  inv s := s.Kept S
  good := S.good
  post s o := o.Sound S s
  post_stable hst h := h.mono hst

theorem sameSource_agrees {net : RemotePackages} {a b : RemoteSource}
    (h : sameSource net a b = true) : a.Agrees net b := by
  simp only [sameSource, RemotePackages.equalFold, Bool.and_eq_true, decide_eq_true_eq] at h
  obtain ⟨⟨⟨⟨htype, hurl⟩, hrepo⟩, htag⟩, hsha⟩ := h
  exact ⟨htype, hurl, hrepo, htag, hsha⟩

/-- Time passes and nothing else happens. -/
theorem TokenState.Kept.pass (h : s.Kept S) (now : ℤ) :
    ({ s with now := now } : TokenState).Kept S ∧ s.Grows { s with now := now } :=
  ⟨⟨h.computed, h.cached, h.honoured⟩, ⟨fun _ h => h, fun _ h => h⟩⟩

/-- A good call keeps the invariant. -/
theorem kept_answer (c : RemoteCall) (next : c.Reply → RemoteSteps) (e : RemoteWeather)
    (h : s.Kept S) (hgood : S.good s c next) :
    (S.answer s e c).1.Kept S ∧ s.Grows (S.answer s e c).1 := by
  cases c with
  | resolve source => exact h.pass _
  | headSize url => exact h.pass _
  | randomToken => exact h.pass _
  | clock => exact h.pass _
  | build plan => exact h.pass _
  | download url sha256 => exact h.pass _
  | insert i =>
      refine ⟨⟨?_, ?_, ?_⟩, fun j hj => List.mem_cons_of_mem i hj, fun _ h => h⟩
      · intro j hj
        rcases List.mem_cons.mp hj with rfl | hj
        · exact hgood.1
        · exact h.computed j hj
      · intro token entry hentry
        by_cases htoken : token = i.token
        · subst htoken
          have hsame : some i.entry = some entry := by
            simpa [RemoteService.answer] using hentry
          exact ⟨i, List.mem_cons_self, rfl, Option.some.inj hsame⟩
        · have hold : s.items token = some entry := by
            simpa [RemoteService.answer, htoken] using hentry
          obtain ⟨j, hj, hrest⟩ := h.cached token entry hold
          exact ⟨j, List.mem_cons_of_mem i hj, hrest⟩
      · intro g hg
        obtain ⟨j, hj, hrest⟩ := h.honoured g hg
        exact ⟨j, List.mem_cons_of_mem i hj, hrest⟩
  | take token =>
      refine ⟨⟨h.computed, ?_, h.honoured⟩, fun _ h => h, fun _ h => h⟩
      intro other entry hentry
      by_cases hother : other = token
      · subst hother
        simp [RemoteService.answer] at hentry
      · exact h.cached other entry (by simpa [RemoteService.answer, hother] using hentry)
  | accept token given entry =>
      obtain ⟨⟨i, hi, htoken, hentry⟩, -⟩ := hgood
      simp only [RemoteService.answer]
      split_ifs with haccept
      · refine ⟨⟨h.computed, h.cached, ?_⟩, fun _ h => h, fun g hg => List.mem_cons_of_mem _ hg⟩
        intro g hg
        rcases List.mem_cons.mp hg with rfl | hg
        · refine ⟨i, hi, htoken, hentry, ?_, ?_⟩
          · rw [hentry]
            exact sameSource_agrees haccept.2
          · rw [hentry]
            exact not_lt.mp haccept.1
        · exact h.honoured g hg
      · exact h.pass _

/-- A downloaded artifact has the digest it was asked for with. -/
theorem fetch_names {net : RemotePackages} {f : Fetcher} {url sha256 : String}
    {answers : List Http.Answer} {data : List UInt8}
    (h : (f.fetch net.toNetPackages url.toList sha256.toList answers).2 = .ok data)
    (hsha : trimSpace sha256 ≠ "") : net.Names sha256 data := by
  unfold Fetcher.fetch Fetcher.request at h
  cases hcheck : f.checkURL net.toNetPackages url.toList with
  | error err => simp [hcheck] at h
  | ok parsed =>
  cases hnew : net.toNetPackages.newRequest parsed with
  | none => simp [hcheck, hnew] at h
  | some u =>
  simp only [hcheck, hnew] at h
  split at h
  · cases h
  split at h
  · cases h
  split_ifs at h with hstatus hsize hdigest
  obtain rfl := Except.ok.inj h
  right
  have hexpected : (trimSpaceChars sha256.toList).map net.toLower ≠ [] := by
    intro hnil
    rw [List.map_eq_nil_iff] at hnil
    exact hsha (by rw [trimSpace, hnil])
  have heq := not_not.mp fun hne => hdigest ⟨hexpected, hne⟩
  rw [RemotePackages.digest, heq, RemotePackages.lower, trimSpace, String.toList_ofList]

/-- Filling in the digest makes the plan name bytes that it did not name otherwise. -/
theorem fillDigest_names {net : RemotePackages} {plan : FetchPlan} {data : List UInt8}
    (h : trimSpace plan.sha256 ≠ "" → net.Names plan.sha256 data) :
    data ≠ [] ∨ trimSpace (fillDigest net plan data).sha256 ≠ "" →
      net.Names (fillDigest net plan data).sha256 data := by
  unfold fillDigest
  split_ifs with hfill
  · exact fun _ => .inl rfl
  · rintro (hdata | hsha)
    · exact h fun hblank => hfill ⟨hblank, hdata⟩
    · exact h hsha

/-- The next step of none of these looks at a token. -/
theorem finishFetch_not_accepts (given : RemoteSource) (token : String) (plan : FetchPlan)
    (r : Except RemoteError (List UInt8)) (other : String) :
    ¬ accepts other (S.finishFetch given token plan r) := by
  cases r <;> exact id

theorem fetchPlan_not_accepts (given : RemoteSource) (token : String) (plan : FetchPlan)
    (other : String) : ¬ accepts other (S.fetchPlan given token plan) := by
  unfold RemoteService.fetchPlan
  by_cases hoff : ¬ S.cfg.enabled
  · rw [if_pos hoff]
    exact finishFetch_not_accepts given token plan _ other
  rw [if_neg hoff]
  by_cases hinline : plan.inlineArtifact ≠ []
  · rw [if_pos hinline]
    exact finishFetch_not_accepts given token plan _ other
  rw [if_neg hinline]
  cases plan.build <;> exact id

theorem preview_not_accepts (source : RemoteSource) (plan : FetchPlan) (preview : ResolvePreview)
    (other : String) : ¬ accepts other (S.preview source plan preview) := by
  unfold RemoteService.preview
  split_ifs <;> exact id

/-- The token of a fetch was honoured for the plan. -/
def TokenState.HonouredFor (s : TokenState) (given : RemoteSource) (token : String)
    (plan : FetchPlan) : Prop :=
  trimSpace token ≠ "" → ∃ h ∈ s.honours, h.token = token ∧ h.given = given ∧ h.entry.plan = plan

theorem TokenState.HonouredFor.mono {given : RemoteSource} {token : String} {plan : FetchPlan}
    (h : s.HonouredFor given token plan) (hst : s.Grows t) : t.HonouredFor given token plan := by
  intro htoken
  obtain ⟨g, hg, hrest⟩ := h htoken
  exact ⟨g, hst.honours g hg, hrest⟩

theorem finishFetch_meets {given : RemoteSource} {token : String} {plan : FetchPlan}
    {r : Except RemoteError (List UInt8)} (hhonoured : s.HonouredFor given token plan)
    (hnames : ∀ data, r = .ok data → trimSpace plan.sha256 ≠ "" → S.net.Names plan.sha256 data) :
    (S.finishFetch given token plan r).Meets S.answer (tokenProtocol S) s := by
  cases r with
  | error err => trivial
  | ok data =>
      refine ⟨fillDigest_names (hnames data rfl), fun htoken => ?_⟩
      obtain ⟨h, hh, htok, hgiven, hplan⟩ := hhonoured htoken
      exact ⟨h, hh, htok, hgiven, by rw [hplan]⟩

/-- On each of the three ways to an artifact the bytes are those the plan names. -/
theorem fetchPlan_meets {given : RemoteSource} {token : String} {plan : FetchPlan}
    {preview : ResolvePreview} (hshown : plan.Shown S.net preview)
    (hhonoured : s.HonouredFor given token plan) :
    (S.fetchPlan given token plan).Meets S.answer (tokenProtocol S) s := by
  unfold RemoteService.fetchPlan
  by_cases hoff : ¬ S.cfg.enabled
  · rw [if_pos hoff]
    exact finishFetch_meets hhonoured nofun
  rw [if_neg hoff]
  by_cases hinline : plan.inlineArtifact ≠ []
  · rw [if_pos hinline]
    refine finishFetch_meets hhonoured fun data hdata _ => ?_
    obtain rfl := Except.ok.inj hdata
    exact .inl (hshown.inline hinline)
  rw [if_neg hinline]
  cases hbuild : plan.build with
  | some spec =>
      intro t hst _
      refine ⟨fun r other => finishFetch_not_accepts given token plan r other, fun e => ?_⟩
      have ht : t.HonouredFor given token plan := hhonoured.mono hst
      refine finishFetch_meets (fun h => ht h) fun data _ hsha => ?_
      rw [hshown.build (by simp [hbuild])] at hsha
      exact absurd (by decide) hsha
  | none =>
      intro t hst _
      refine ⟨fun r other => finishFetch_not_accepts given token plan r other, fun e => ?_⟩
      have ht : t.HonouredFor given token plan := hhonoured.mono hst
      refine finishFetch_meets (fun h => ht h) fun data hdata hsha => ?_
      simp only [RemoteService.answer] at hdata
      cases hfetch : (S.fetcher.fetch S.net.toNetPackages plan.url.toList plan.sha256.toList
          e.answers).2 with
      | error err => simp [hfetch, Except.mapError] at hdata
      | ok body =>
          rw [hfetch] at hdata
          obtain rfl := Except.ok.inj hdata
          exact fetch_names hfetch hsha

theorem resolveAndFetch_meets (given : RemoteSource) (token : String) :
    (S.resolveAndFetch given token).Meets S.answer (tokenProtocol S) s := by
  unfold RemoteService.resolveAndFetch
  by_cases htoken : trimSpace token ≠ ""
  · rw [if_pos htoken]
    intro t _ hkept
    refine ⟨⟨fun _ => id, fun entry other h => h.symm⟩, fun e => ?_⟩
    simp only [RemoteService.answer]
    cases hentry : t.items token with
    | none => trivial
    | some entry =>
        obtain ⟨i, hi, hitoken, hientry⟩ := hkept.cached token entry hentry
        intro u hu hukept
        refine ⟨⟨⟨i, hu.issues i hi, hitoken, hientry⟩, fun r other => ?_⟩, fun e' => ?_⟩
        · cases r with
          | true => exact fetchPlan_not_accepts given token entry.plan other
          | false => exact id
        · simp only [RemoteService.answer]
          by_cases haccept : ¬ entry.expiresAt < u.now + e'.elapsed ∧
              sameSource S.net entry.source given = true
          · rw [if_pos haccept]
            obtain ⟨raw, p, size, hresolve, -⟩ := hkept.computed i hi
            rw [hientry] at hresolve
            refine fetchPlan_meets (resolveSource_shown hresolve) fun _ => ?_
            exact ⟨_, List.mem_cons_self, rfl, rfl, rfl⟩
          · rw [if_neg haccept]
            trivial
  · rw [if_neg htoken]
    intro t _ _
    refine ⟨fun r other => ?_, fun e => ?_⟩
    · cases r with
      | error err => exact id
      | ok r => exact fetchPlan_not_accepts given token r.1 other
    · simp only [RemoteService.answer]
      cases hresolve : resolveSource S.net S.cfg e.raw given with
      | error err => trivial
      | ok r =>
          exact fetchPlan_meets (resolveSource_shown hresolve) fun h => absurd h htoken

theorem issueToken_meets {source : RemoteSource} {plan : FetchPlan} {preview p : ResolvePreview}
    {raw : RawFiles} {size : ℤ} (hresolve : resolveSource S.net S.cfg raw source = .ok (plan, p))
    (hpreview : preview = { p with size := size }) :
    (S.issueToken source plan preview).Meets S.answer (tokenProtocol S) s := by
  intro t _ _
  refine ⟨fun r other => by cases r <;> exact id, fun e => ?_⟩
  simp only [RemoteService.answer]
  cases e.token with
  | error err => trivial
  | ok token =>
      intro u _ _
      refine ⟨fun r other => id, fun e' => ?_⟩
      intro v _ _
      refine ⟨⟨⟨raw, p, size, hresolve, hpreview⟩, fun r other => id⟩, fun e'' => ?_⟩
      exact ⟨_, List.mem_cons_self, rfl, rfl⟩

theorem resolve_meets (source : RemoteSource) :
    (S.resolve source).Meets S.answer (tokenProtocol S) s := by
  unfold RemoteService.resolve
  by_cases hoff : ¬ S.cfg.enabled
  · rw [if_pos hoff]
    trivial
  rw [if_neg hoff]
  intro t _ _
  refine ⟨fun r other => ?_, fun e => ?_⟩
  · cases r with
    | error err => exact id
    | ok r => exact preview_not_accepts source r.1 r.2 other
  · simp only [RemoteService.answer]
    cases hresolve : resolveSource S.net S.cfg e.raw source with
    | error err => trivial
    | ok r =>
        obtain ⟨plan, preview⟩ := r
        show (S.preview source plan preview).Meets S.answer (tokenProtocol S) _
        unfold RemoteService.preview
        by_cases hurl : preview.url ≠ ""
        · rw [if_pos hurl]
          intro u _ _
          refine ⟨fun r other => ?_, fun e' => ?_⟩
          · cases r with
            | error err => exact id
            | ok size =>
                dsimp only
                split_ifs <;> exact id
          · simp only [RemoteService.answer]
            cases (S.fetcher.headSize S.net.toNetPackages preview.url.toList e'.answers).2 with
            | error err => exact issueToken_meets hresolve rfl
            | ok size =>
                dsimp only
                split_ifs
                · exact issueToken_meets hresolve rfl
                · exact issueToken_meets hresolve rfl
        · rw [if_neg hurl]
          exact issueToken_meets hresolve rfl

end

/-- Each issue of a token is in the cache, with a request that is about to look at it, or
honoured, and in one of these places only. -/
def TokensSpent (s : RemotePool) : Prop :=
  ∀ (token : String) (ns : Finset ℕ), (∀ n ∈ ns, accepts token (s.threads n)) →
    ns.card + s.shared.honours.countP (fun h => h.token = token) +
        (s.shared.items token).toList.length ≤
      s.shared.issues.countP (fun i => i.token = token)

section
variable {S : RemoteService} {s t : RemotePool} {n : ℕ}

/-- The requests that are about to look at a token did so before one of them went on. -/
theorem accepts_before {threads : ℕ → RemoteSteps} {p : RemoteSteps} {token : String}
    {ns : Finset ℕ} (hp : ¬ accepts token p)
    (h : ∀ m ∈ ns, accepts token (Function.update threads n p m)) :
    n ∉ ns ∧ ∀ m ∈ ns, accepts token (threads m) := by
  have hn : n ∉ ns := fun hn => hp (by simpa using h n hn)
  refine ⟨hn, fun m hm => ?_⟩
  have hne : m ≠ n := fun hmn => hn (hmn ▸ hm)
  simpa [hne] using h m hm

/-- A step that does not move a token. -/
theorem TokensSpent.pass {p : RemoteSteps} (h : TokensSpent s)
    (hp : ∀ token, ¬ accepts token p) (hshared : ∃ now, t.shared = { s.shared with now := now })
    (hthreads : t.threads = Function.update s.threads n p) : TokensSpent t := by
  obtain ⟨now, hshared⟩ := hshared
  intro token ns hns
  rw [hthreads] at hns
  rw [hshared]
  exact h token ns (accepts_before (hp token) hns).2

theorem TokensSpent.call {c : RemoteCall} {next : c.Reply → RemoteSteps} {e : RemoteWeather}
    (h : TokensSpent s) (hthread : s.threads n = .call c next) (hgood : S.good s.shared c next)
    (hshared : t.shared = (S.answer s.shared e c).1)
    (hthreads : t.threads = Function.update s.threads n (next (S.answer s.shared e c).2)) :
    TokensSpent t := by
  cases c with
  | resolve source => exact h.pass (hgood _) ⟨_, hshared⟩ hthreads
  | headSize url => exact h.pass (hgood _) ⟨_, hshared⟩ hthreads
  | randomToken => exact h.pass (hgood _) ⟨_, hshared⟩ hthreads
  | clock => exact h.pass (hgood _) ⟨_, hshared⟩ hthreads
  | build plan => exact h.pass (hgood _) ⟨_, hshared⟩ hthreads
  | download url sha256 => exact h.pass (hgood _) ⟨_, hshared⟩ hthreads
  | insert i =>
      intro token ns hns
      rw [hthreads] at hns
      obtain ⟨-, hbefore⟩ := accepts_before (hgood.2 _ token) hns
      have hspent := h token ns hbefore
      rw [hshared]
      simp only [RemoteService.answer, List.countP_cons, decide_eq_true_eq]
      by_cases htoken : i.token = token
      · subst htoken
        simp only [Function.update_self, Option.toList_some, List.length_singleton, if_true]
        omega
      · rw [Function.update_of_ne (Ne.symm htoken), if_neg htoken]
        exact hspent
  | take taken =>
      intro token ns hns
      rw [hthreads] at hns
      rw [hshared]
      simp only [RemoteService.answer] at hns ⊢
      by_cases htoken : token = taken
      · subst htoken
        rw [Function.update_self]
        cases hitem : s.shared.items token with
        | none =>
            rw [hitem] at hns
            obtain ⟨-, hbefore⟩ := accepts_before (hgood.1 token) hns
            have hspent := h token ns hbefore
            simp only [hitem] at hspent
            exact hspent
        | some entry =>
            -- the entry goes from the cache to the request
            have hothers : ∀ m ∈ ns.erase n, accepts token (s.threads m) := by
              intro m hm
              obtain ⟨hne, hm⟩ := Finset.mem_erase.mp hm
              simpa [hne] using hns m hm
            have hspent := h token (ns.erase n) hothers
            have hcard : ns.card - 1 ≤ (ns.erase n).card := Finset.pred_card_le_card_erase
            simp only [hitem, Option.toList_some, List.length_singleton] at hspent
            simp only [Option.toList_none, List.length_nil]
            omega
      · rw [Function.update_of_ne htoken]
        have hno : ¬ accepts token (next (s.shared.items taken)) := by
          cases hitem : s.shared.items taken with
          | none => exact hgood.1 token
          | some entry => exact fun haccepts => htoken (hgood.2 entry token haccepts)
        exact h token ns (accepts_before hno hns).2
  | accept taken given entry =>
      intro token ns hns
      rw [hthreads] at hns
      obtain ⟨hn, hbefore⟩ := accepts_before (hgood.2 _ token) hns
      have hitems : t.shared.items = s.shared.items := by
        rw [hshared]
        simp only [RemoteService.answer]
        split_ifs <;> rfl
      have hissues : t.shared.issues = s.shared.issues := by
        rw [hshared]
        simp only [RemoteService.answer]
        split_ifs <;> rfl
      have hhonours : t.shared.honours.countP (fun h => h.token = token) ≤
          s.shared.honours.countP (fun h => h.token = token) + if taken = token then 1 else 0 := by
        rw [hshared]
        simp only [RemoteService.answer]
        split_ifs <;> simp [*]
      rw [hitems, hissues]
      by_cases htoken : taken = token
      · -- the request that goes on held one of the tokens
        have hall : ∀ m ∈ insert n ns, accepts token (s.threads m) := by
          intro m hm
          rcases Finset.mem_insert.mp hm with rfl | hm
          · rw [hthread]
            exact htoken
          · exact hbefore m hm
        have hspent := h token (insert n ns) hall
        rw [Finset.card_insert_of_notMem hn] at hspent
        rw [if_pos htoken] at hhonours
        omega
      · have hspent := h token ns hbefore
        rw [if_neg htoken] at hhonours
        omega

theorem TokensSpent.start {p : RemoteSteps} (h : TokensSpent s) (hp : ∀ token, ¬ accepts token p)
    (ht : s.start n p = some t) : TokensSpent t := by
  obtain ⟨-, hshared, hthreads⟩ := Pool.start_eq_some ht
  exact h.pass hp ⟨s.shared.now, hshared⟩ hthreads

theorem program_not_accepts (r : RemoteRequest) (token : String) :
    ¬ accepts token (r.program S) := by
  cases r with
  | resolve source =>
      simp only [RemoteRequest.program, RemoteService.resolve]
      split_ifs <;> exact id
  | resolveAndFetch source token =>
      simp only [RemoteRequest.program, RemoteService.resolveAndFetch]
      split_ifs <;> exact id

theorem program_meets (r : RemoteRequest) (s : TokenState) :
    (r.program S).Meets S.answer (tokenProtocol S) s := by
  cases r with
  | resolve source => exact resolve_meets source
  | resolveAndFetch source token => exact resolveAndFetch_meets source token

/-- What every step keeps. -/
structure RemoteSound (S : RemoteService) (s : RemotePool) : Prop where
  follows : s.Follows S.answer (tokenProtocol S)
  spent : TokensSpent s

theorem remoteStep_sound {a : RemoteAction} (h : RemoteSound S s) (ht : remoteStep S s a = some t) :
    RemoteSound S t := by
  cases a with
  | begin n r =>
      exact ⟨h.follows.start (program_meets r s.shared) ht,
        h.spent.start (program_not_accepts r) ht⟩
  | call n e =>
      obtain ⟨hfollows, c, next, hthread, hgood, hshared, hthreads⟩ :=
        h.follows.call (fun s c next e => kept_answer c next e) ht
      exact ⟨hfollows, h.spent.call hthread hgood hshared hthreads⟩

theorem quietRemote_sound (now : ℤ) : RemoteSound S (quietRemote now) := by
  refine ⟨⟨⟨?_, ?_, ?_⟩, fun n => trivial⟩, ?_⟩
  · exact fun i hi => absurd hi List.not_mem_nil
  · exact fun token entry h => nomatch h
  · exact fun h hh => absurd hh List.not_mem_nil
  · intro token ns hns
    rw [Finset.eq_empty_of_forall_notMem fun n hn => hns n hn]
    simp [quietRemote]

theorem RemoteSound.previewBound (h : RemoteSound S s) : PreviewBound S s := by
  have hkept : s.shared.Kept S := h.follows.inv
  refine ⟨fun token => ?_, hkept.computed, hkept.honoured, ?_, ?_⟩
  · have hspent := h.spent token ∅ (by simp)
    rw [Finset.card_empty] at hspent
    omega
  · intro n source preview hn
    have hmeets := h.follows.meets n
    rw [hn] at hmeets
    exact hmeets
  · intro n given token plan data hn
    have hmeets := h.follows.meets n
    rw [hn] at hmeets
    refine ⟨hmeets.1, fun htoken => ?_⟩
    obtain ⟨g, hg, hgtoken, hgiven, hplan⟩ := hmeets.2 htoken
    obtain ⟨i, hi, hitoken, hentry, -, -⟩ := hkept.honoured g hg
    refine ⟨g, hg, hgtoken, hgiven, i, hi, hitoken.trans hgtoken, hentry, ?_, fun hsha => ?_⟩
    · rw [hentry]
      exact hplan
    · -- the preview shows the digest of its plan, which is then not filled in
      obtain ⟨raw, p, size, hresolve, hpreview⟩ := hkept.computed i hi
      have hshown := (resolveSource_shown hresolve).digest
      rw [hpreview] at hsha ⊢
      dsimp only at hsha ⊢
      rw [hshown] at hsha ⊢
      rw [hplan, ← hentry, fillDigest, if_neg fun hfill => hsha hfill.1]

end

/-- What was previewed is what is installed, in every interleaving of the requests and
however much time passes between their steps. -/
theorem preview_bound (S : RemoteService) (now : ℤ) (actions : List RemoteAction) :
    Along (remoteStep S) (PreviewBound S) (quietRemote now) actions :=
  (along_of_invariant (fun _ _ _ h ht => remoteStep_sound h ht) actions
    (quietRemote_sound now)).mono fun _ h => h.previewBound

/-- An index with a build and one with an asset, whose digest is written with blanks. -/
def demoIndex (data : List UInt8) : IndexFile where
  id := "acme/demo"
  repository := ""
  releases :=
    if data = [] then []
    else [⟨"1.0.0", "", "", "", [⟨"linux", "amd64", "https://acme.test/p.zip", " 6E340B9C ", []⟩]⟩]
  build := some ⟨"", "./cmd/demo", ""⟩

def demoRemote : RemoteService where
  net :=
    { demoNet with
      sha256Hex := fun _ => "6e340b9c".toList
      fold := Char.toLower
      goos := "linux"
      goarch := "amd64"
      quote := fun s => s
      unmarshalIndex := fun data => .ok (demoIndex data)
      unmarshalHints := fun _ => none
      unmarshalManifest := fun _ => .error "no manifest"
      zip := .ok
      formatRFC3339 := fun _ => "" }
  cfg := ⟨true, "", "", 0, true⟩
  fetcher := newFetcher ⟨[], 0, 0⟩

/-- A forge whose file has those bytes, and a server that answers with one byte. -/
def demoRemoteWeather (elapsed : ℕ) (index : List UInt8) : RemoteWeather where
  elapsed := elapsed
  raw _ := .ok index
  answers := [.response ⟨200, [], [0], 1⟩]
  token := .ok "2b7e"
  built := .ok []

def urlSource (asset : String) : RemoteSource :=
  ⟨"url", "https://acme.test/p.zip", "", "", asset, "6e340b9c", "", ""⟩

def forgeSource (type : String) : RemoteSource :=
  ⟨type, "", "acme/demo", "v1.0.0", "", "", "", ""⟩

/-- The token of one asset is given with another, as late as it can be. -/
def otherAssetRun : List RemoteAction :=
  [.begin 0 (.resolve (urlSource "a.zip"))] ++
    List.replicate 5 (.call 0 (demoRemoteWeather 0 [])) ++
    [.begin 1 (.resolveAndFetch (urlSource "b.zip") "2b7e"), .call 1 (demoRemoteWeather 0 []),
      .call 1 (demoRemoteWeather (15 * 60 * 10 ^ 9) [])]

def emptyBuildRun : List RemoteAction :=
  [.begin 0 (.resolveAndFetch (forgeSource "github-build") ""), .call 0 (demoRemoteWeather 0 []),
    .call 0 (demoRemoteWeather 0 [])]

def blankDigestRun : List RemoteAction :=
  [.begin 0 (.resolveAndFetch (forgeSource "github") ""), .call 0 (demoRemoteWeather 0 [1]),
    .call 0 (demoRemoteWeather 0 [])]

/-- A token is honoured at its expiry and for a source that asks for another asset. A
build that gives no bytes leaves the plan without a digest, and an index may write its
digest with blanks. -/
theorem preview_not_bound_exactly :
    (∃ t h, run (remoteStep demoRemote) (quietRemote 0) otherAssetRun = some t ∧
      h ∈ t.shared.honours ∧ h.entry.source.asset ≠ h.given.asset ∧
        ¬ h.time < h.entry.expiresAt) ∧
    (∃ t plan, run (remoteStep demoRemote) (quietRemote 0) emptyBuildRun = some t ∧
      t.threads 0 = .done (.fetched (forgeSource "github-build") "" plan [] none) ∧
        plan.sha256 ≠ demoRemote.net.digest []) ∧
    (∃ t plan, run (remoteStep demoRemote) (quietRemote 0) blankDigestRun = some t ∧
      t.threads 0 = .done (.fetched (forgeSource "github") "" plan [0] none) ∧
        plan.sha256 ≠ demoRemote.net.digest [0]) := by
  refine ⟨⟨_, _, rfl, List.mem_singleton_self _, by decide, by decide⟩,
    ⟨_, _, rfl, rfl, by decide⟩, ⟨_, _, rfl, rfl, by decide⟩⟩

end GoSite.Plugin
