import GoSite.GoStrings
import GoSite.RedirectChains

/-!
# The artifact fetcher

The fetcher checks the host of a URL before it asks for it, and the host of the
last answer before it reads it. What lies between the two is left to the client,
whose policy counts redirects and looks at no host.
-/
namespace GoSite.Plugin
open GoStrings Http

/-- `url.URL`: the scheme, the host with its port, and all the rest. -/
structure URL where
  scheme : List Char
  host : List Char
  rest : List Char
  deriving Repr, DecidableEq

/-- The packages that the fetcher uses. `reread` is `url.Parse` of what `String`
writes for a URL, and `resolve` is the `Parse` of a URL for a reference. A URL
that is written and read again keeps its scheme and its host. -/
structure NetPackages where
  toLower : Char → Char
  parse : List Char → Option URL
  reread : URL → Option URL
  resolve : URL → List Char → Option URL
  sha256Hex : List UInt8 → List Char
  reread_keeps : ∀ u w, reread u = some w → w.scheme = u.scheme ∧ w.host = u.host

/-- `net.SplitHostPort`. -/
def splitHostPort (hostport : List Char) : Option (List Char × List Char) :=
  if ':' ∉ hostport then none
  else
    let port := (hostport.reverse.takeWhile (· ≠ ':')).reverse
    let host := hostport.take (hostport.length - port.length - 1)
    match host with
    | '[' :: rest =>
        let inner := rest.dropLast
        if rest.getLast? ≠ some ']' ∨ ']' ∈ inner then none
        else if '[' ∈ inner ++ port ∨ ']' ∈ port then none
        else some (inner, port)
    | _ => if ':' ∈ host ∨ '[' ∈ hostport ∨ ']' ∈ hostport then none else some (host, port)

/-- `removeEmptyPort` of `net/http`. -/
def removeEmptyPort (host : List Char) : List Char :=
  if host.getLast? = some ':' then host.dropLast else host

/-- `http.NewRequest` for a URL, by the URL of the request. -/
def NetPackages.newRequest (net : NetPackages) (u : URL) : Option URL :=
  (net.reread u).map fun w => { w with host := removeEmptyPort w.host }

def hostMatchesAllowed (net : NetPackages) (hostname allowed : List Char) : Bool :=
  let allowed := (trimSpaceChars allowed).map net.toLower
  if allowed = [] then false
  else
    let allowed := match splitHostPort allowed with
      | some (ah, _) => ah
      | none => allowed
    if allowed = hostname then true
    else if ['*', '.'] <+: allowed then
      let suffix := trimPrefix allowed ['*']
      suffix <:+ hostname ∧ hostname ≠ trimPrefix suffix ['.']
    else false

structure FetchConfig where
  allowedHosts : List (List Char)
  maxBytes : ℤ
  maxRedirects : ℤ

/-- `Fetcher`. -/
structure Fetcher where
  allowedHosts : List (List Char)
  maxBytes : ℤ
  maxRedirects : ℕ
  pos : 0 < maxRedirects

/-- `New`. -/
def newFetcher (cfg : FetchConfig) : Fetcher where
  allowedHosts := cfg.allowedHosts
  maxBytes := if cfg.maxBytes ≤ 0 then 64 * 2 ^ 20 else cfg.maxBytes
  maxRedirects := if cfg.maxRedirects ≤ 0 then 3 else cfg.maxRedirects.toNat
  pos := by
    split_ifs
    · decide
    · omega

inductive FetchError where
  | invalidInput (message : String)
  | pluginOperation (message : String) (cause : Option String)
  | plain (text : String)
  deriving Repr, DecidableEq

def fetchFailed : String := "fetch_failed"
def fetchTooLarge : String := "fetch_too_large"
def fetchDigestMismatch : String := "fetch_digest_mismatch"

def Fetcher.ensureHostAllowed (f : Fetcher) (net : NetPackages) (host : List Char) :
    Option FetchError :=
  let host := (trimSpaceChars host).map net.toLower
  if host = [] then some (.invalidInput "url host required")
  else if f.allowedHosts = [] then none
  else
    let hostname := match splitHostPort host with
      | some (h, _) => h
      | none => host
    if f.allowedHosts.any (hostMatchesAllowed net hostname) then none
    else some (.invalidInput "host not in PLUGIN_INSTALL_ALLOWED_HOSTS")

/-- What the transport sends requests to. -/
def URL.sendable (u : URL) : Bool :=
  (u.scheme = "http".toList ∨ u.scheme = "https".toList) ∧ u.host ≠ []

/-- The client of `New`. -/
def Fetcher.client (f : Fetcher) (net : NetPackages) : Client URL where
  sendable := URL.sendable
  resolve := net.resolve
  checkRedirect _ via := if f.maxRedirects ≤ via.length then some "too many redirects" else none

/-- What `Fetch` and `HeadSize` check of a URL before they use it. -/
def Fetcher.checkURL (f : Fetcher) (net : NetPackages) (rawURL : List Char) :
    Except FetchError URL :=
  match net.parse (trimSpaceChars rawURL) with
  | none => .error (.invalidInput "url must be https")
  | some parsed =>
      if parsed.scheme ≠ "https".toList then .error (.invalidInput "url must be https")
      else
        match f.ensureHostAllowed net parsed.host with
        | some err => .error err
        | none => .ok parsed

/-- What `Fetch` and `HeadSize` have in common, with the URLs of the requests sent.
They differ in how an error of the client is reported and in what they read. -/
def Fetcher.request {α : Type} (f : Fetcher) (net : NetPackages) (rawURL : List Char)
    (report : String → FetchError) (read : Response → Except FetchError α)
    (answers : List Answer) : List URL × Except FetchError α :=
  match f.checkURL net rawURL with
  | .error err => ([], .error err)
  | .ok parsed =>
      match net.newRequest parsed with
      | none => ([], .error (report "parse"))
      | some u =>
          let (sent, result) := (f.client net).follow [] u answers
          (sent, match result with
            | .error err => .error (report err)
            | .ok (last, resp) =>
                match f.ensureHostAllowed net last.host with
                | some err => .error err
                | none => read resp)

/-- `Fetch`. -/
def Fetcher.fetch (f : Fetcher) (net : NetPackages) (rawURL expectedSHA256 : List Char)
    (answers : List Answer) : List URL × Except FetchError (List UInt8) :=
  f.request net rawURL (fun err => .pluginOperation fetchFailed (some err)) (fun resp =>
    if resp.status < 200 ∨ 300 ≤ resp.status then .error (.pluginOperation fetchFailed none)
    else if f.maxBytes < resp.body.length then .error (.pluginOperation fetchTooLarge none)
    else
      let expected := (trimSpaceChars expectedSHA256).map net.toLower
      if expected ≠ [] ∧ net.sha256Hex resp.body ≠ expected then
        .error (.pluginOperation fetchDigestMismatch none)
      else .ok resp.body) answers

/-- `HeadSize`. -/
def Fetcher.headSize (f : Fetcher) (net : NetPackages) (rawURL : List Char)
    (answers : List Answer) : List URL × Except FetchError ℤ :=
  f.request net rawURL .plain (fun resp =>
    if resp.status < 200 ∨ 300 ≤ resp.status then
      .error (.plain ("head status " ++ toString resp.status))
    else .ok resp.contentLength) answers

/-- A URL that the policy of the fetcher permits. -/
def Fetcher.Permits (f : Fetcher) (net : NetPackages) (u : URL) : Prop :=
  u.scheme = "https".toList ∧ f.ensureHostAllowed net u.host = none

/-- All requests of a call go to permitted URLs. -/
def Fetcher.StaysAllowed (f : Fetcher) (net : NetPackages) (sent : List URL) : Prop :=
  ∀ u ∈ sent, f.Permits net u

/-- The redirects that are followed from `u` on. A URL that cannot be sent ends them. -/
def Fetcher.followed (f : Fetcher) (net : NetPackages) (u : URL) (answers : List Answer) :
    List URL :=
  (((f.client net).targets u answers).take (f.maxRedirects - 1)).takeWhile URL.sendable

/-- The server redirects to permitted URLs only, and the host of the first one is
still allowed when it is written without an empty port. -/
def Fetcher.ServerKeeps (f : Fetcher) (net : NetPackages) (rawURL : List Char)
    (answers : List Answer) : Prop :=
  ∀ parsed, f.checkURL net rawURL = .ok parsed → ∀ u, net.newRequest parsed = some u →
    u.host ≠ [] →
      f.ensureHostAllowed net (removeEmptyPort parsed.host) = none ∧
        ∀ target ∈ f.followed net u answers, f.Permits net target

theorem checkURL_ok {f : Fetcher} {net : NetPackages} {rawURL : List Char} {parsed : URL}
    (h : f.checkURL net rawURL = .ok parsed) :
    parsed.scheme = "https".toList ∧ f.ensureHostAllowed net parsed.host = none := by
  unfold Fetcher.checkURL at h
  cases hparse : net.parse (trimSpaceChars rawURL) with
  | none => simp [hparse] at h
  | some u =>
      simp only [hparse] at h
      split_ifs at h with hscheme
      cases hhost : f.ensureHostAllowed net u.host with
      | some err => simp [hhost] at h
      | none =>
          rw [hhost] at h
          obtain rfl := Except.ok.inj h
          exact ⟨not_not.mp hscheme, hhost⟩

/-- The requests that the client sends. -/
theorem client_sent (f : Fetcher) (net : NetPackages) (u : URL) (answers : List Answer) :
    ((f.client net).follow [] u answers).1 =
      if u.sendable then u :: f.followed net u answers else [] := by
  have hcheck : ∀ next via, (f.client net).checkRedirect next via = none ↔
      via.length < f.maxRedirects := by
    intro next via
    simp [Fetcher.client]
  obtain ⟨k, hk⟩ : ∃ k, f.maxRedirects = k + 1 := ⟨f.maxRedirects - 1, by have := f.pos; omega⟩
  have hsent := follow_sent hcheck [] u answers f.pos
  rw [hsent, Fetcher.followed, List.length_nil, Nat.sub_zero, hk, List.take_succ_cons]
  by_cases hsend : u.sendable <;> simp [Fetcher.client, hsend]

/-- The first request keeps the scheme, and the host but for an empty port. -/
theorem newRequest_keeps {net : NetPackages} {parsed u : URL} (h : net.newRequest parsed = some u) :
    u.scheme = parsed.scheme ∧ u.host = removeEmptyPort parsed.host := by
  obtain ⟨w, hreread, rfl⟩ := Option.map_eq_some_iff.mp h
  obtain ⟨hscheme, hhost⟩ := net.reread_keeps _ _ hreread
  exact ⟨hscheme, congrArg removeEmptyPort hhost⟩

/-- The requests of a call stay on allowed hosts where the server does. -/
theorem request_stays_iff {α : Type} (f : Fetcher) (net : NetPackages) (rawURL : List Char)
    (report : String → FetchError) (read : Response → Except FetchError α)
    (answers : List Answer) :
    f.StaysAllowed net (f.request net rawURL report read answers).1 ↔
      f.ServerKeeps net rawURL answers := by
  unfold Fetcher.request Fetcher.ServerKeeps
  cases hcheck : f.checkURL net rawURL with
  | error err => simp [Fetcher.StaysAllowed]
  | ok parsed =>
      obtain ⟨hscheme, -⟩ := checkURL_ok hcheck
      cases hnew : net.newRequest parsed with
      | none => simp [Fetcher.StaysAllowed, hnew]
      | some u =>
          obtain ⟨huscheme, huhost⟩ := newRequest_keeps hnew
          have hsend : u.sendable ↔ removeEmptyPort parsed.host ≠ [] := by
            simp [URL.sendable, huscheme, hscheme, huhost]
          simp only [client_sent, Except.ok.injEq, forall_eq', hnew, Option.some.injEq, huhost]
          by_cases hhost : removeEmptyPort parsed.host = []
          · simp [hsend, hhost, Fetcher.StaysAllowed]
          · have hfirst : f.Permits net u ↔
                f.ensureHostAllowed net (removeEmptyPort parsed.host) = none := by
              rw [Fetcher.Permits, huscheme, huhost]
              simp [hscheme]
            rw [if_pos (hsend.mpr hhost), Fetcher.StaysAllowed, List.forall_mem_cons, hfirst]
            simp [hhost]

/-- `Fetch` and `HeadSize` send requests to allowed hosts only where the server
redirects to such hosts only. -/
theorem downloads_stay_allowed_iff (cfg : FetchConfig) (net : NetPackages)
    (rawURL expectedSHA256 : List Char) (answers : List Answer) :
    ((newFetcher cfg).StaysAllowed net
        ((newFetcher cfg).fetch net rawURL expectedSHA256 answers).1 ↔
      (newFetcher cfg).ServerKeeps net rawURL answers) ∧
    ((newFetcher cfg).StaysAllowed net ((newFetcher cfg).headSize net rawURL answers).1 ↔
      (newFetcher cfg).ServerKeeps net rawURL answers) :=
  ⟨request_stays_iff _ _ _ _ _ _, request_stays_iff _ _ _ _ _ _⟩

/-- A URL that is a scheme, a host and a path. -/
def demoParse (raw : List Char) : Option URL :=
  let scheme := raw.takeWhile (· ≠ ':')
  if ['/', '/', ':'] <+: (raw.take (scheme.length + 3)).reverse then
    let rest := raw.drop (scheme.length + 3)
    some ⟨scheme, rest.takeWhile (· ≠ '/'), rest.dropWhile (· ≠ '/')⟩
  else none

/-- References are whole URLs. -/
def demoNet : NetPackages where
  toLower := Char.toLower
  parse := demoParse
  reread := some
  resolve _ := demoParse
  sha256Hex _ := []
  reread_keeps := by simp

/-- A server that is allowed sends the fetcher to one that is not. -/
theorem redirect_leaves_allowed_hosts :
    ¬ ∀ (cfg : FetchConfig) (net : NetPackages) (rawURL expectedSHA256 : List Char)
      (answers : List Answer), cfg.allowedHosts ≠ [] →
      (newFetcher cfg).StaysAllowed net
        ((newFetcher cfg).fetch net rawURL expectedSHA256 answers).1 := by
  intro h
  have hstays := h ⟨["github.com".toList], 0, 0⟩ demoNet "https://github.com/p.zip".toList []
    [.response ⟨302, "http://169.254.169.254/".toList, [], 0⟩] (by simp)
  have hsent := hstays ⟨"http".toList, "169.254.169.254".toList, "/".toList⟩ (by decide)
  exact absurd hsent.1 (by decide)

end GoSite.Plugin
