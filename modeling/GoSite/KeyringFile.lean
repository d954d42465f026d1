import GoSite.GuardedRuns
import GoSite.HookVersions
import GoSite.Rfc3339Times
import GoSite.Utf8Texts

/-!
# The keyring

The keys that may sign plugins are kept in a file. Adding or revoking a key reads the
file, edits the list and writes it back, and the check of a signature walks the same
list. A key is revoked by the first entry of its vendor and id, while a signature is
checked against all of them.
-/
namespace GoSite.Plugin
open GoStrings GuardedRuns

/-- `TrustedKey`. -/
structure TrustedKey where
  vendor : String
  keyID : String
  publicKey : String
  revokedAt : String
  deriving Repr, DecidableEq

/-- `Signature`. -/
structure Signature where
  keyID : String
  sig : String
  deriving Repr, DecidableEq

/-- The file by what `json.Unmarshal` makes of its bytes. Where that reports an error it
may have read some entries before. -/
inductive KeyringFile where
  | missing
  | empty
  | garbled (entries : List TrustedKey)
  | keyring (keys : List TrustedKey)
  deriving Repr, DecidableEq

def KeyringFile.entries : KeyringFile → List TrustedKey
  | .missing | .empty => []
  | .garbled entries => entries
  | .keyring keys => keys

/-- The calls of the file system that fail, and what a failed write leaves. -/
structure KeyringWeather where
  mkdirErr : Option String
  readErr : Option String
  writeErr : Option String
  left : KeyringFile
  deriving Repr, DecidableEq

/-- `loadKeyringFile`. -/
def loadKeyringFile (readErr : Option String) (file : KeyringFile) :
    Except String (List TrustedKey) :=
  match readErr with
  | some err => .error err
  | none =>
      match file with
      | .missing | .empty => .ok []
      | .garbled _ => .error "invalid keyring"
      | .keyring keys => .ok keys

/-- `writeKeyringFile`. -/
def writeKeyringFile (e : KeyringWeather) (keys : List TrustedKey) : KeyringFile × Option String :=
  match e.writeErr with
  | some err => (e.left, some err)
  | none => (.keyring keys, none)

/-- The entry is one of the vendor's key. -/
def TrustedKey.isOf (vendor keyID : String) (k : TrustedKey) : Bool :=
  k.vendor = vendor && k.keyID = keyID

/-- The loop of `AddKeyringEntry`, which replaces the first entry of the key or appends. -/
@[grind] def putKey (key : TrustedKey) : List TrustedKey → List TrustedKey
  | [] => [key]
  | k :: ks => if k.isOf key.vendor key.keyID then key :: ks else k :: putKey key ks

/-- `AddKeyringEntry`. -/
def addKeyringEntry (e : KeyringWeather) (file : KeyringFile) (key : TrustedKey) :
    KeyringFile × Option String :=
  if trimSpace key.vendor = "" ∨ trimSpace key.keyID = "" ∨ trimSpace key.publicKey = "" then
    (file, some "vendor, keyId, and publicKey are required")
  else
    match e.mkdirErr with
    | some err => (file, some err)
    | none =>
        -- The error of reading is dropped, and the keyring is empty then.
        let keys :=
          match loadKeyringFile e.readErr file with
          | .ok keys => keys
          | .error _ => []
        writeKeyringFile e (putKey key keys)

/-- `Time.UTC().Format(time.RFC3339)`. -/
def formatRFC3339 (now : ℤ) : String :=
  String.ofList (GoTimes.formatRFC3339Nano (now - now % 10 ^ 9))

/-- The loop of `RevokeKeyringEntry`, which stamps the first entry of the key. -/
@[grind] def stampKey (vendor keyID : String) (now : ℤ) :
    List TrustedKey → Option (List TrustedKey)
  | [] => none
  | k :: ks =>
      if k.isOf vendor keyID then
        some ((if k.revokedAt = "" then { k with revokedAt := formatRFC3339 now } else k) :: ks)
      else (stampKey vendor keyID now ks).map (k :: ·)

/-- `RevokeKeyringEntry`. -/
def revokeKeyringEntry (e : KeyringWeather) (now : ℤ) (file : KeyringFile)
    (vendor keyID : String) : KeyringFile × Option String :=
  if trimSpace vendor = "" ∨ trimSpace keyID = "" then
    (file, some "vendor and keyId required")
  else
    match loadKeyringFile e.readErr file with
    | .error err => (file, some err)
    | .ok keys =>
        match stampKey vendor keyID now keys with
        | none => (file, some "key not found")
        | some keys => writeKeyringFile e keys

/-! ## Signatures -/

/-- A manifest with its signatures. -/
structure SignedManifest extends InstallManifest where
  signatures : List Signature
  signed_eq : signed = !signatures.isEmpty

/-- What the service checks signatures with. -/
structure Verifier where
  installer : Installer
  keyringPath : String
  /-- `base64.StdEncoding.DecodeString`. -/
  decodeBase64 : String → Option (List UInt8)
  /-- `ed25519.Verify` of a public key, a message and a signature. -/
  verify : List UInt8 → List UInt8 → List UInt8 → Bool

section
variable (v : Verifier)

/-- `loadKeyring`, which wants the file to be there. -/
def Verifier.loadKeyring (readErr : Option String) (file : KeyringFile) :
    Except AppError (List TrustedKey) :=
  if trimSpace v.keyringPath = "" then .error (.new .pluginInvalid "plugin keyring is required")
  else
    match readErr with
    | some err => .error (.wrap .config "read plugin keyring failed" err)
    | none =>
        match file with
        | .missing => .error (.wrap .config "read plugin keyring failed" "no such file")
        | .empty => .error (.wrap .config "parse plugin keyring failed" "unexpected end")
        | .garbled _ => .error (.wrap .config "parse plugin keyring failed" "invalid keyring")
        | .keyring keys => .ok keys

/-- The signature verifies under the public key of the entry. -/
def Verifier.signs (key : TrustedKey) (digest sig : String) : Bool :=
  match v.decodeBase64 key.publicKey with
  | none => false
  | some publicKey =>
      if publicKey.length ≠ 32 then false
      else
        match v.decodeBase64 sig with
        | none => false
        | some signature => v.verify publicKey (encode digest) signature

/-- `SplitN(id, "/", 2)[0]`. -/
def vendorOf (id : String) : String := String.ofList (id.toList.takeWhile (· ≠ '/'))

/-- The loops of `verifyArtifact` over the signatures and the keys. -/
def Verifier.trusts (keys : List TrustedKey) (id digest : String) (signatures : List Signature) :
    Bool :=
  signatures.any fun sig => keys.any fun key =>
    key.isOf (vendorOf id) sig.keyID && trimSpace key.revokedAt = "" && v.signs key digest sig.sig

/-- The end of `verifyArtifact`, for a manifest with signatures. -/
def Verifier.keyringCheck (readErr : Option String) (file : KeyringFile) (m : SignedManifest)
    (digest : String) : Option AppError :=
  match v.loadKeyring readErr file with
  | .error err => some err
  | .ok keys =>
      if v.trusts keys m.id digest m.signatures then none
      else some (.new .pluginInvalid "plugin signature is not trusted")

/-- `verifyArtifact`. -/
def Verifier.verifyArtifact (readErr : Option String) (file : KeyringFile) (m : SignedManifest)
    (digest : String) (bundledTrust : Bool) : Option AppError :=
  Installer.verifyArtifact
    { v.installer with keyringCheck := fun _ digest => v.keyringCheck readErr file m digest }
    m.toInstallManifest digest bundledTrust

/-- No artifact is accepted whose signatures are all by the key. -/
def Verifier.Rejects (file : KeyringFile) (vendor keyID : String) (bundledTrust : Bool) : Prop :=
  ∀ (readErr : Option String) (m : SignedManifest) (digest : String),
    vendorOf m.id = vendor → m.signatures ≠ [] → (∀ sig ∈ m.signatures, sig.keyID = keyID) →
      v.verifyArtifact readErr file m digest bundledTrust ≠ none

/-- The entry is not revoked, and some signature verifies under it. -/
def Verifier.Live (key : TrustedKey) : Prop :=
  trimSpace key.revokedAt = "" ∧ ∃ digest sig, v.signs key digest sig = true

end

/-! ## Which keys are trusted -/

section
variable {v : Verifier} {vendor keyID : String} {keys : List TrustedKey}

theorem vendorOf_append (hslash : '/' ∉ vendor.toList) (name : String) :
    vendorOf (vendor ++ "/" ++ name) = vendor := by
  have hall : ∀ c ∈ vendor.toList, (decide (c ≠ '/')) = true := by
    intro c hc
    simpa using fun heq : c = '/' => hslash (heq ▸ hc)
  have hsep : "/".toList = ['/'] := rfl
  rw [vendorOf, String.toList_append, String.toList_append, List.append_assoc,
    List.takeWhile_append_of_pos hall, hsep]
  simp

theorem vendorOf_slash (id : String) : '/' ∉ (vendorOf id).toList := by
  rw [vendorOf, String.toList_ofList]
  intro hmem
  simpa using List.mem_takeWhile_imp hmem

theorem trusts_iff {id digest : String} {signatures : List Signature}
    (hid : vendorOf id = vendor) (hsigs : ∀ sig ∈ signatures, sig.keyID = keyID) :
    v.trusts keys id digest signatures = true ↔
      ∃ sig ∈ signatures, ∃ key ∈ keys, key.isOf vendor keyID = true ∧
        trimSpace key.revokedAt = "" ∧ v.signs key digest sig.sig = true := by
  simp only [Verifier.trusts, List.any_eq_true, Bool.and_eq_true, decide_eq_true_eq, and_assoc]
  constructor
  · rintro ⟨sig, hsig, key, hkey, hof, hrevoked, hsigns⟩
    rw [hid, hsigs sig hsig] at hof
    exact ⟨sig, hsig, key, hkey, hof, hrevoked, hsigns⟩
  · rintro ⟨sig, hsig, key, hkey, hof, hrevoked, hsigns⟩
    rw [← hid, ← hsigs sig hsig] at hof
    exact ⟨sig, hsig, key, hkey, hof, hrevoked, hsigns⟩

/-- A manifest for one signature. -/
def signedManifest (id : String) (sig : Signature) : SignedManifest where
  toInstallManifest := { Hookbus.plainManifest "1.0.0" with id := id, signed := true }
  signatures := [sig]
  signed_eq := rfl

theorem verifyArtifact_signed {readErr : Option String} {file : KeyringFile}
    {m : SignedManifest} {digest : String} (hsigs : m.signatures ≠ []) :
    v.verifyArtifact readErr file m digest false ≠ none ∨
      v.verifyArtifact readErr file m digest false = v.keyringCheck readErr file m digest := by
  have hsigned : m.signed = true := by
    rw [m.signed_eq]
    cases hm : m.signatures with
    | nil => exact absurd hm hsigs
    | cons sig sigs => rfl
  rw [Verifier.verifyArtifact, Installer.verifyArtifact]
  dsimp only
  by_cases hdigest : trimSpace m.artifactSHA256 ≠ "" ∧
      ¬ equalFoldHex (trimSpace m.artifactSHA256) digest = true
  · rw [if_pos hdigest]
    exact .inl (by simp)
  · rw [if_neg hdigest, if_neg Bool.false_ne_true, if_neg (not_not_intro hsigned)]
    exact .inr rfl

theorem verifyArtifact_signedManifest {id digest : String} {sig : Signature}
    {file : KeyringFile} (bundledTrust : Bool) :
    v.verifyArtifact none file (signedManifest id sig) digest bundledTrust =
      if bundledTrust = true then none
      else v.keyringCheck none file (signedManifest id sig) digest := by
  have hexpected : trimSpace (signedManifest id sig).artifactSHA256 = "" :=
    show trimSpace "" = "" by decide
  rw [Verifier.verifyArtifact, Installer.verifyArtifact]
  dsimp only
  rw [hexpected]
  rfl

/-- Every artifact of the key is rejected exactly when none of its entries is live, or
the check does not come to them. -/
theorem rejects_iff (bundledTrust : Bool) :
    v.Rejects (.keyring keys) vendor keyID bundledTrust ↔
      '/' ∈ vendor.toList ∨ bundledTrust = false ∧ (trimSpace v.keyringPath = "" ∨
        ∀ key ∈ keys, key.isOf vendor keyID = true → ¬ v.Live key) := by
  constructor
  · intro h
    by_contra hnot
    rw [not_or, not_and_or, not_or] at hnot
    obtain ⟨hslash, hnot⟩ := hnot
    have hid := vendorOf_append hslash "x"
    rcases hnot with hbundled | ⟨hpath, hlive⟩
    · refine h none (signedManifest (vendor ++ "/" ++ "x") ⟨keyID, ""⟩) "" hid (by
        simp [signedManifest]) (by simp [signedManifest]) ?_
      rw [verifyArtifact_signedManifest, if_pos (by simpa using hbundled)]
    · push Not at hlive
      obtain ⟨key, hkey, hof, hrevoked, digest, sig, hsigns⟩ := hlive
      refine h none (signedManifest (vendor ++ "/" ++ "x") ⟨keyID, sig⟩) digest hid (by
        simp [signedManifest]) (by simp [signedManifest]) ?_
      have htrusts : v.trusts keys (vendor ++ "/" ++ "x") digest [⟨keyID, sig⟩] = true :=
        (trusts_iff hid (by simp)).mpr ⟨_, List.mem_singleton_self _, key, hkey, hof, hrevoked,
          hsigns⟩
      rw [verifyArtifact_signedManifest]
      split_ifs
      · rfl
      · rw [Verifier.keyringCheck, Verifier.loadKeyring, if_neg hpath]
        exact if_pos htrusts
  · intro h readErr m digest hid hsigs hkeys haccepts
    rcases h with hslash | ⟨rfl, h⟩
    · exact vendorOf_slash m.id (hid ▸ hslash)
    · rcases @verifyArtifact_signed v readErr (.keyring keys) m digest hsigs with hne | heq
      · exact hne haccepts
      · rw [heq, Verifier.keyringCheck] at haccepts
        by_cases hpath : trimSpace v.keyringPath = ""
        · rw [Verifier.loadKeyring.eq_def, if_pos hpath] at haccepts
          cases haccepts
        · rw [Verifier.loadKeyring.eq_def, if_neg hpath] at haccepts
          cases readErr with
          | some err => cases haccepts
          | none =>
              have hlive := h.resolve_left hpath
              have hnot : ¬ v.trusts keys m.id digest m.signatures = true := by
                rw [trusts_iff hid hkeys]
                rintro ⟨sig, hsig, key, hkey, hof, hrevoked, hsigns⟩
                exact hlive key hkey hof ⟨hrevoked, digest, sig.sig, hsigns⟩
              dsimp only at haccepts
              rw [if_neg hnot] at haccepts
              cases haccepts

/-! ## Revocation -/

theorem trimSpace_formatRFC3339 (now : ℤ) : trimSpace (formatRFC3339 now) ≠ "" := by
  have hmem : 'T' ∈ (formatRFC3339 now).toList := by
    rw [formatRFC3339, String.toList_ofList]
    simp [GoTimes.formatRFC3339Nano, GoTimes.rfc3339Text]
  intro hblank
  have hchars := congrArg String.toList hblank
  rw [trimSpace, String.toList_ofList] at hchars
  have htrim := mem_trimSpaceChars hmem (by decide)
  rw [hchars] at htrim
  simp at htrim

/-- After a revocation the entries of the key that may be live are the later ones, and
the first one where it had a blank date. -/
theorem stampKey_live_iff {now : ℤ} {keys' : List TrustedKey}
    (h : stampKey vendor keyID now keys = some keys') :
    (∀ key ∈ keys', key.isOf vendor keyID = true → ¬ v.Live key) ↔
      (∀ key ∈ keys.find? (·.isOf vendor keyID), key.revokedAt = "" ∨ ¬ v.Live key) ∧
        ∀ key ∈ keys.eraseP (·.isOf vendor keyID), key.isOf vendor keyID = true →
          ¬ v.Live key := by
  induction keys generalizing keys' with
  | nil => cases h
  | cons k ks ih =>
      rw [stampKey] at h
      by_cases hof : k.isOf vendor keyID = true
      · rw [if_pos hof, Option.some.injEq] at h
        subst h
        rw [List.forall_mem_cons, List.find?_cons_of_pos hof, List.eraseP_cons_of_pos hof]
        refine and_congr ?_ Iff.rfl
        simp only [Option.mem_def, Option.some.injEq, forall_eq']
        split_ifs with hblank
        · refine ⟨fun _ => .inl hblank, fun _ _ hlive => ?_⟩
          exact trimSpace_formatRFC3339 now hlive.1
        · exact ⟨fun hnot => .inr (hnot hof), fun hnot _ => hnot.resolve_left hblank⟩
      · rw [if_neg hof] at h
        obtain ⟨rest, hrest, rfl⟩ := Option.map_eq_some_iff.mp h
        rw [List.forall_mem_cons, List.find?_cons_of_neg hof, List.eraseP_cons_of_neg hof,
          List.forall_mem_cons, ih hrest]
        constructor
        · exact fun ⟨hk, hfirst, hrest⟩ => ⟨hfirst, hk, hrest⟩
        · exact fun ⟨hfirst, hk, hrest⟩ => ⟨hk, hfirst, hrest⟩

theorem loadKeyringFile_ok {readErr : Option String} {file : KeyringFile}
    (h : loadKeyringFile readErr file = .ok keys) :
    keys = file.entries := by
  cases readErr with
  | some err => cases h
  | none =>
      cases file with
      | missing => exact (Except.ok.inj h).symm
      | empty => exact (Except.ok.inj h).symm
      | garbled entries => cases h
      | keyring keys => exact (Except.ok.inj h).symm

theorem writeKeyringFile_ok {e : KeyringWeather} {file' : KeyringFile}
    (h : writeKeyringFile e keys = (file', none)) : file' = .keyring keys := by
  rw [writeKeyringFile] at h
  cases herr : e.writeErr with
  | some err => simp [herr] at h
  | none =>
      rw [herr] at h
      exact (Prod.mk.inj h).1.symm

theorem revokeKeyringEntry_ok {e : KeyringWeather} {now : ℤ} {file file' : KeyringFile}
    (h : revokeKeyringEntry e now file vendor keyID = (file', none)) :
    ∃ keys', stampKey vendor keyID now file.entries = some keys' ∧ file' = .keyring keys' := by
  rw [revokeKeyringEntry] at h
  split_ifs at h
  · cases h
  cases hread : loadKeyringFile e.readErr file with
  | error err => simp [hread] at h
  | ok keys =>
      rw [hread] at h
      dsimp only at h
      cases hstamp : stampKey vendor keyID now keys with
      | none => simp [hstamp] at h
      | some keys' =>
          rw [hstamp] at h
          exact ⟨keys', loadKeyringFile_ok hread ▸ hstamp, writeKeyringFile_ok h⟩

end

/-! ## Adding keys -/

/-- One successful `AddKeyringEntry`. -/
def addStep (file : KeyringFile) (a : KeyringWeather × TrustedKey) : Option KeyringFile :=
  match addKeyringEntry a.1 file a.2 with
  | (file', none) => some file'
  | (_, some _) => none

/-- The call reads the keyring without an error. -/
def Readable (file : KeyringFile) (a : KeyringWeather × TrustedKey) : Prop :=
  loadKeyringFile a.1.readErr file = .ok file.entries

/-- The call does not replace the first of the entries of its key by another one. -/
def Unreplaced (entries : List TrustedKey) (key : TrustedKey) : Prop :=
  ∀ k ∈ entries.find? (·.isOf key.vendor key.keyID), k = key

/-- A call that succeeds puts the key to what it has read, or to nothing when it could
not read the file. -/
theorem addStep_ok {file file' : KeyringFile} {a : KeyringWeather × TrustedKey}
    (h : addStep file a = some file') :
    file' = .keyring (putKey a.2
      (match loadKeyringFile a.1.readErr file with | .ok keys => keys | .error _ => [])) := by
  rw [addStep] at h
  cases hadd : addKeyringEntry a.1 file a.2 with
  | mk written err =>
      rw [hadd] at h
      cases err with
      | some err => cases h
      | none =>
          rw [← Option.some.inj h]
          rw [addKeyringEntry] at hadd
          split_ifs at hadd
          · cases hadd
          cases hmk : a.1.mkdirErr with
          | some err => simp [hmk] at hadd
          | none =>
              rw [hmk] at hadd
              exact writeKeyringFile_ok hadd

theorem addStep_readable {file file' : KeyringFile} {a : KeyringWeather × TrustedKey}
    (hread : Readable file a) (h : addStep file a = some file') :
    file' = .keyring (putKey a.2 file.entries) := by
  rw [addStep_ok h, show loadKeyringFile a.1.readErr file = .ok file.entries from hread]

/-- Putting a key keeps what is there at the front, if the key replaces nothing of it. -/
theorem prefixed_putKey_iff {key : TrustedKey} {before keys : List TrustedKey}
    (h : before <+: keys) : before <+: putKey key keys ↔ Unreplaced before key := by
  induction before generalizing keys with
  | nil => simp [Unreplaced]
  | cons k ks ih =>
      obtain ⟨rest, rfl⟩ := h
      have hrest : ks <+: ks ++ rest := List.prefix_append ks rest
      rw [List.cons_append, putKey, Unreplaced]
      by_cases hof : k.isOf key.vendor key.keyID = true
      · rw [if_pos hof, List.find?_cons_of_pos hof, List.cons_prefix_cons]
        simp only [Option.mem_def, Option.some.injEq, forall_eq']
        exact and_iff_left hrest
      · rw [if_neg hof, List.find?_cons_of_neg hof, List.cons_prefix_cons]
        exact (and_iff_right rfl).trans (ih hrest)

/-- While the calls read the file, what was in it stays exactly as long as none of them
replaces an entry of it. -/
theorem added_kept_iff {file : KeyringFile} {adds : List (KeyringWeather × TrustedKey)}
    (hread : Guarded addStep Readable file adds) :
    Along addStep (fun file' => file.entries <+: file'.entries) file adds ↔
      Guarded addStep (fun _ a => Unreplaced file.entries a.2) file adds := by
  suffices h : ∀ start : KeyringFile, file.entries <+: start.entries →
      Guarded addStep Readable start adds →
      (Along addStep (fun file' => file.entries <+: file'.entries) start adds ↔
        Guarded addStep (fun _ a => Unreplaced file.entries a.2) start adds) from
    h file List.prefix_rfl hread
  clear hread
  induction adds with
  | nil => exact fun start hstart _ => ⟨fun _ => trivial, fun _ => hstart⟩
  | cons a as ih =>
      intro start hstart hread
      rw [along_cons, guarded_cons, and_iff_right hstart]
      refine forall₂_congr fun file' hstep => ?_
      obtain ⟨hreadable, hrest⟩ := hread file' hstep
      have hfile := addStep_readable hreadable hstep
      have hiff := @prefixed_putKey_iff a.2 _ _ hstart
      have hentries : file'.entries = putKey a.2 start.entries := by rw [hfile]; rfl
      constructor
      · intro halong
        have hkept : file.entries <+: file'.entries := halong.head
        exact ⟨hiff.mp (hentries ▸ hkept), (ih file' hkept hrest).mp halong⟩
      · rintro ⟨hkeeps, hguarded⟩
        have hkept : file.entries <+: file'.entries := hentries ▸ hiff.mpr hkeeps
        exact (ih file' hkept hrest).mpr hguarded

/-- A revoked key is accepted no more when its other entries were not live and the date
of its first entry was not a blank one. Adding keys to a keyring that can be read keeps
the entries that were there, but for an entry that is replaced. -/
theorem revoked_key_rejected (v : Verifier) {vendor keyID : String} {e : KeyringWeather} {now : ℤ}
    {file file' : KeyringFile}
    (hrevoke : revokeKeyringEntry e now file vendor keyID = (file', none))
    (hfirst : ∀ key ∈ file.entries.find? (·.isOf vendor keyID),
      key.revokedAt = "" ∨ trimSpace key.revokedAt ≠ "")
    (hrest : ∀ key ∈ file.entries.eraseP (·.isOf vendor keyID),
      key.isOf vendor keyID = true → ¬ v.Live key)
    {before : KeyringFile} {adds : List (KeyringWeather × TrustedKey)}
    (hread : Guarded addStep Readable before adds) :
    v.Rejects file' vendor keyID false ∧
      (Along addStep (fun after => before.entries <+: after.entries) before adds ↔
        Guarded addStep (fun _ a => Unreplaced before.entries a.2) before adds) := by
  obtain ⟨keys, hstamp, rfl⟩ := revokeKeyringEntry_ok hrevoke
  refine ⟨(rejects_iff false).mpr (.inr ⟨rfl, .inr ?_⟩), added_kept_iff hread⟩
  refine (stampKey_live_iff hstamp).mpr ⟨fun key hkey => ?_, hrest⟩
  exact (hfirst key hkey).imp_right fun hdate hlive => hdate hlive.1

/-- All calls succeed. -/
def calmKeyring : KeyringWeather where
  mkdirErr := none
  readErr := none
  writeErr := none
  left := .missing

/-- Every text decodes to as many bytes as a public key has, and every signature verifies. -/
def easyVerifier : Verifier where
  installer := demoInstaller
  keyringPath := "keyring.json"
  decodeBase64 _ := some (List.replicate 32 0)
  verify _ _ _ := true

def sampleKey (keyID revokedAt : String) : TrustedKey := ⟨"acme", keyID, "cGs=", revokedAt⟩

theorem revoked_key_rejected_sample :
    easyVerifier.Rejects
        (revokeKeyringEntry calmKeyring 0 (.keyring [sampleKey "a" "", sampleKey "b" ""])
          "acme" "a").1 "acme" "a" false ∧
      (Along addStep (fun after => (KeyringFile.keyring [sampleKey "b" ""]).entries <+:
          after.entries) (.keyring [sampleKey "b" ""]) [(calmKeyring, sampleKey "c" "")] ↔
        Guarded addStep
          (fun _ a => Unreplaced (KeyringFile.keyring [sampleKey "b" ""]).entries a.2)
          (.keyring [sampleKey "b" ""]) [(calmKeyring, sampleKey "c" "")]) :=
  @revoked_key_rejected easyVerifier _ _ calmKeyring 0 _ _
    (Prod.ext rfl (by decide)) (by decide)
    (by
      intro key hkey hof
      have hkey : key ∈ [sampleKey "b" ""] := hkey
      rw [List.mem_singleton.mp hkey] at hof
      exact absurd hof (by decide))
    _ _ (fun _ _ => ⟨rfl, trivial⟩)

/-- An entry is replaced by one of the same key, and a bundled artifact is accepted
whatever key has signed it. -/
theorem replaced_entry_is_gone :
    (addStep (.keyring [sampleKey "a" "2026-01-02T03:04:05Z"]) (calmKeyring, sampleKey "a" "") =
        some (.keyring [sampleKey "a" ""]) ∧
      sampleKey "a" "2026-01-02T03:04:05Z" ∉ (KeyringFile.keyring [sampleKey "a" ""]).entries) ∧
      (revokeKeyringEntry calmKeyring 0 (.keyring [sampleKey "a" ""]) "acme" "a").2 = none ∧
      easyVerifier.verifyArtifact none
        (revokeKeyringEntry calmKeyring 0 (.keyring [sampleKey "a" ""]) "acme" "a").1
        (signedManifest "acme/sample" ⟨"a", ""⟩) "" true = none := by
  refine ⟨⟨by decide, by decide⟩, by decide, ?_⟩
  rw [verifyArtifact_signedManifest, if_pos rfl]

end GoSite.Plugin
