import GoSite.HttpAccess

/-!
# What a request with a token may do

Each call keeps the rules of the tokens: a token stays what it is, a revoked one stays
revoked, and the scopes of all others are known and permitted. In every run of the server a
request is then served only as its route demands.
-/
namespace GoSite.Access
open GoStrings Interleaving GuardedRuns
open GoSite.Plugin (Registry PluginVersion)

/-- A token later on. -/
structure Continues (t t' : AccessToken) : Prop where
  id : t'.id = t.id
  pluginID : t'.pluginID = t.pluginID
  tokenHash : t'.tokenHash = t.tokenHash
  expiresAt : t'.expiresAt = t.expiresAt
  revoked : t.revokedAt ≠ none → t'.revokedAt = t.revokedAt ∧ t'.scopes = t.scopes

theorem Continues.refl (t : AccessToken) : Continues t t :=
  ⟨rfl, rfl, rfl, rfl, fun _ => ⟨rfl, rfl⟩⟩

theorem Continues.trans {t t' t'' : AccessToken} (h : Continues t t') (h' : Continues t' t'') :
    Continues t t'' where
  id := h'.id.trans h.id
  pluginID := h'.pluginID.trans h.pluginID
  tokenHash := h'.tokenHash.trans h.tokenHash
  expiresAt := h'.expiresAt.trans h.expiresAt
  revoked ht := by
    obtain ⟨hrevoked, hscopes⟩ := h.revoked ht
    obtain ⟨hrevoked', hscopes'⟩ := h'.revoked (hrevoked ▸ ht)
    exact ⟨hrevoked'.trans hrevoked, hscopes'.trans hscopes⟩

/-- The world later on. -/
structure Evolves (w w' : AccessWorld) : Prop where
  now : w.now ≤ w'.now
  tokens : ∀ t ∈ w.tokens.rows, ∃ t' ∈ w'.tokens.rows, Continues t t'

theorem Evolves.refl (w : AccessWorld) : Evolves w w := ⟨le_rfl, fun t ht => ⟨t, ht, .refl t⟩⟩

theorem Evolves.trans {w w' w'' : AccessWorld} (h : Evolves w w') (h' : Evolves w' w'') :
    Evolves w w'' where
  now := h.now.trans h'.now
  tokens t ht := by
    obtain ⟨t', ht', hcont⟩ := h.tokens t ht
    obtain ⟨t'', ht'', hcont'⟩ := h'.tokens t' ht'
    exact ⟨t'', ht'', hcont.trans hcont'⟩

section
variable (S : TokenService) (E : String → String → Prop)

/-- The scopes of a token are known, and `E` permits them to its plugin. -/
structure Sound (pluginID : String) (scopes : List String) : Prop where
  ne_nil : scopes ≠ []
  known : ∀ s ∈ scopes, s ∈ knownScopes
  permitted : ∀ s ∈ scopes, E pluginID s

/-- `E` permits every enabled version what its manifest asks for. -/
def Covers (plugins : Registry) : Prop :=
  ∀ p ∈ plugins.rows, p.state = .enabled → ∀ s ∈ allowedScopes (S.permissions p), E p.pluginID s

/-- The rules of the tokens. -/
def tokenRules : Rules AccessWorld AccessCall where
  rely := Evolves
  refl := .refl
  trans := .trans
  inv w := Covers S E w.plugins ∧ ∀ t ∈ w.tokens.rows, Sound E t.pluginID t.scopes
  allowed w
    | .create t => Sound E t.pluginID t.scopes
    | .updateScopes id scopes => ∀ t ∈ w.tokens.rows, t.id = id → Sound E t.pluginID scopes
    | _ => True

end

theorem mem_update {g : TokenTable} {which : AccessToken → Bool} {c : TokenChange}
    {t : AccessToken} :
    t ∈ (g.update which c).rows ↔ ∃ u ∈ g.rows, (if which u then c.apply u else u) = t :=
  List.mem_map

/-- Rows of one id are one. -/
theorem TokenTable.eq_of_id {g : TokenTable} {t u : AccessToken} (ht : t ∈ g.rows)
    (hu : u ∈ g.rows) (h : t.id = u.id) : t = u :=
  List.inj_on_of_nodup_map g.ids_nodup ht hu h

/-- An `UPDATE` that leaves what is revoked as it is. -/
theorem evolves_update {w : AccessWorld} {which : AccessToken → Bool} {c : TokenChange}
    (hactive : ∀ t, which t = true → t.revokedAt = none ∨ ∃ time, c = .lastUsedAt time) :
    Evolves w { w with tokens := w.tokens.update which c } where
  now := le_rfl
  tokens t ht := by
    refine ⟨_, mem_update.mpr ⟨t, ht, rfl⟩, ?_⟩
    by_cases hwhich : which t = true
    · rw [if_pos hwhich]
      refine ⟨by simp, by simp, by simp, by simp, fun hrevoked => ?_⟩
      obtain hnone | ⟨time, rfl⟩ := hactive t hwhich
      · exact absurd hnone hrevoked
      · exact ⟨rfl, rfl⟩
    · rw [if_neg hwhich]
      exact .refl t

theorem sound_update {E : String → String → Prop} {g : TokenTable} {which : AccessToken → Bool}
    {c : TokenChange} (hg : ∀ t ∈ g.rows, Sound E t.pluginID t.scopes)
    (hc : ∀ t ∈ g.rows, which t = true → Sound E t.pluginID (c.apply t).scopes) :
    ∀ t ∈ (g.update which c).rows, Sound E t.pluginID t.scopes := by
  intro t ht
  obtain ⟨u, hu, rfl⟩ := mem_update.mp ht
  by_cases hwhich : which u = true
  · rw [if_pos hwhich, TokenChange.apply_pluginID]
    exact hc u hu hwhich
  · rw [if_neg hwhich]
    exact hg u hu

theorem create_eq_ok {g g' : TokenTable} {t : AccessToken} (h : g.create t = .ok g') :
    g'.rows = g.rows ++ [t] := by
  unfold TokenTable.create at h
  split_ifs at h
  cases h
  rfl

section
variable {S : TokenService} {E : String → String → Prop} {w : AccessWorld}

/-- What holds after a call that is allowed. -/
def Kept (S : TokenService) (E : String → String → Prop) (w w' : AccessWorld) : Prop :=
  (tokenRules S E).inv w' ∧ Evolves w w'

theorem kept_refl (h : (tokenRules S E).inv w) : Kept S E w w := ⟨h, .refl w⟩

theorem kept_change {α : Type} (h : (tokenRules S E).inv w) (fault : Option String)
    {which : AccessToken → Bool} {c : TokenChange} (a : α)
    (hactive : ∀ t, which t = true → t.revokedAt = none)
    (hc : ∀ t ∈ w.tokens.rows, which t = true → Sound E t.pluginID (c.apply t).scopes) :
    Kept S E w (w.change fault which c a).1 := by
  cases fault with
  | some e => exact kept_refl h
  | none =>
      exact ⟨⟨h.1, sound_update h.2 hc⟩, evolves_update fun t ht => .inl (hactive t ht)⟩

theorem isActive_iff {id : String} {t : AccessToken} :
    isActive id t = true ↔ t.id = id ∧ t.revokedAt = none := by simp [isActive]

theorem isActiveOf_iff {pluginID : String} {t : AccessToken} :
    isActiveOf pluginID t = true ↔ t.pluginID = pluginID ∧ t.revokedAt = none := by
  simp [isActiveOf]

theorem kept_create (h : (tokenRules S E).inv w) (fault : Option String) {t : AccessToken}
    (ht : Sound E t.pluginID t.scopes) : Kept S E w (w.create fault t).1 := by
  unfold AccessWorld.create
  cases fault with
  | some e => exact kept_refl h
  | none =>
      cases hcreate : w.tokens.create t with
      | error e => exact kept_refl h
      | ok g =>
          have hrows := create_eq_ok hcreate
          refine ⟨⟨h.1, fun u hu => ?_⟩, le_rfl, fun u hu => ⟨u, ?_, .refl u⟩⟩
          · rw [hrows, List.mem_append, List.mem_singleton] at hu
            obtain hu | rfl := hu
            · exact h.2 u hu
            · exact ht
          · show u ∈ g.rows
            rw [hrows]
            exact List.mem_append_left _ hu

theorem kept_touch (h : (tokenRules S E).inv w) (fault : Option String) (id : String)
    (time : ℤ) : Kept S E w (w.touch fault id time).1 := by
  cases fault with
  | some e => exact kept_refl h
  | none =>
      exact ⟨⟨h.1, sound_update h.2 fun t ht _ => h.2 t ht⟩,
        evolves_update fun t _ => .inr ⟨time, rfl⟩⟩

/-- Each call that is allowed keeps the rules. -/
theorem kept_answer (h : (tokenRules S E).inv w) {c : AccessCall}
    (hc : (tokenRules S E).allowed w c) (e : Weather) : Kept S E w (w.answer e c).1 := by
  cases c with
  | create t => exact kept_create h e.fault hc
  | updateScopes id scopes =>
      exact kept_change h e.fault _ (fun t ht => (isActive_iff.mp ht).2)
        fun t ht hactive => hc t ht (isActive_iff.mp hactive).1
  | revoke id time =>
      exact kept_change h e.fault _ (fun t ht => (isActive_iff.mp ht).2) fun t ht _ => h.2 t ht
  | revokeAll pluginID time =>
      exact kept_change h e.fault _ (fun t ht => (isActiveOf_iff.mp ht).2) fun t ht _ => h.2 t ht
  | touchLastUsed id time => exact kept_touch h e.fault id time
  | recordUse key time =>
      simp only [AccessWorld.answer, AccessWorld.recordUse]
      split_ifs
      · exact kept_refl h
      · exact ⟨h, le_rfl, fun t ht => ⟨t, ht, .refl t⟩⟩
  | audit entry =>
      simp only [AccessWorld.answer, AccessWorld.write]
      cases e.fault with
      | some err => exact kept_refl h
      | none => exact ⟨h, le_rfl, fun t ht => ⟨t, ht, .refl t⟩⟩
  | findEnabled | listPlugins | listByPlugin | findByID | findByHash | listActive | clock | secret
  | sessionUser | findUser | handler => exact kept_refl h

end

theorem trimSpace_of_known : ∀ s ∈ knownScopes, trimSpace s = s := by decide +kernel

theorem validScope_iff {s : String} (h : trimSpace s = s) :
    validScope s = true ↔ s ≠ "" ∧ s ∈ knownScopes := by
  simp [validScope, h]

theorem normalizeScopesFrom_known {kept scopes out : List String}
    (hkept : ∀ s ∈ kept, s ∈ knownScopes) (h : normalizeScopesFrom kept scopes = .ok out) :
    ∀ s ∈ out, s ∈ knownScopes := by
  induction scopes generalizing kept with
  | nil =>
      cases h
      exact hkept
  | cons scope scopes ih =>
      rw [normalizeScopesFrom] at h
      split_ifs at h with hblank hvalid hmem
      · exact ih hkept h
      · exact ih hkept h
      · refine ih (fun s hs => ?_) h
        rw [List.mem_append, List.mem_singleton] at hs
        obtain hs | rfl := hs
        · exact hkept s hs
        · exact ((validScope_iff (trimSpace_trimSpace _)).mp hvalid).2

theorem normalizeScopes_spec {scopes out : List String} (h : normalizeScopes scopes = .ok out) :
    out ≠ [] ∧ ∀ s ∈ out, s ∈ knownScopes := by
  unfold normalizeScopes at h
  split_ifs at h
  cases hfrom : normalizeScopesFrom [] scopes with
  | error e => simp [hfrom] at h
  | ok out' =>
      simp only [hfrom] at h
      split_ifs at h with hne
      cases h
      exact ⟨hne, normalizeScopesFrom_known (by simp) hfrom⟩

/-- Normalized scopes that the manifest permits. -/
theorem sound_of_subset {E : String → String → Prop} {pluginID : String}
    {permissions scopes out : List String} (h : ∀ s ∈ allowedScopes permissions, E pluginID s)
    (hout : normalizeScopes scopes = .ok out) (hsubset : subsetOfManifest out permissions = true) :
    Sound E pluginID out := by
  obtain ⟨hne, hknown⟩ := normalizeScopes_spec hout
  refine ⟨hne, hknown, fun s hs => h s ?_⟩
  have hallowed := List.all_eq_true.mp hsubset s hs
  rw [trimSpace_of_known s (hknown s hs), decide_eq_true_eq] at hallowed
  exact hallowed.2

/-- What is left of the scopes of a token. -/
theorem sound_intersect {E : String → String → Prop} {pluginID : String}
    {scopes permissions : List String} (h : Sound E pluginID scopes)
    (hne : intersectScopes scopes permissions ≠ []) :
    Sound E pluginID (intersectScopes scopes permissions) := by
  have hsub : ∀ s ∈ intersectScopes scopes permissions, s ∈ scopes := by
    intro s hs
    obtain ⟨hmem, -⟩ := List.mem_filter.mp hs
    obtain ⟨t, ht, rfl⟩ := List.mem_map.mp hmem
    rwa [trimSpace_of_known t (h.known t ht)]
  exact ⟨hne, fun s hs => h.known s (hsub s hs), fun s hs => h.permitted s (hsub s hs)⟩

section
variable (S : TokenService) (E : String → String → Prop) {α β : Type}

/-- A program that keeps the rules and returns what it should. -/
structure Obeys (post : AccessWorld → α → Prop) (p : AccessSteps α) (w : AccessWorld) : Prop where
  meets : p.Meets AccessWorld.answer ((tokenRules S E).protocol post) w

/-- A program that keeps the rules whatever it is answered. -/
def Quiet (p : AccessSteps α) : Prop := ∀ w, Obeys S E (fun _ _ => True) p w

variable {S E} {post : AccessWorld → β → Prop} {w : AccessWorld}

theorem Obeys.bind {p : AccessSteps α} {f : α → AccessSteps β} {q : AccessWorld → α → Prop}
    (h : Obeys S E q p w) (hf : ∀ u a, q u a → Obeys S E post (f a) u) :
    Obeys S E post (p >>= f) w :=
  ⟨Program.Meets.bind (h.meets.mono fun u a ha => (hf u a ha).meets)⟩

theorem Obeys.mono {post' : AccessWorld → β → Prop} {p : AccessSteps β}
    (h : Obeys S E post p w) (hpost : ∀ u a, post u a → post' u a) : Obeys S E post' p w :=
  ⟨h.meets.mono hpost⟩

theorem Obeys.stable {p : AccessSteps β} {u : AccessWorld} (h : Obeys S E post p w)
    (hwu : Evolves w u) : Obeys S E post p u :=
  ⟨h.meets.stable hwu⟩

theorem obeys_done {a : β} (h : ∀ u, Evolves w u → post u a) :
    Obeys S E post (.done a) w := ⟨h⟩

/-- A call that is allowed. -/
theorem obeys_call {c : AccessCall} {f : c.Reply → AccessSteps β}
    (h : ∀ u, Evolves w u → (tokenRules S E).inv u → (tokenRules S E).allowed u c ∧
      ∀ e, Obeys S E post (f (u.answer e c).2) (u.answer e c).1) :
    Obeys S E post (ask c >>= f) w :=
  ⟨fun u hwu hinv => ⟨(h u hwu hinv).1, fun e => ((h u hwu hinv).2 e).meets⟩⟩

/-- A call that is always allowed. -/
theorem obeys_free {c : AccessCall} {f : c.Reply → AccessSteps β}
    (hfree : ∀ u, (tokenRules S E).allowed u c) (h : ∀ r, Obeys S E post (f r) w) :
    Obeys S E post (ask c >>= f) w :=
  obeys_call fun u hwu hinv => ⟨hfree u, fun e =>
    (h _).stable (hwu.trans (kept_answer hinv (hfree u) e).2)⟩

/-- A call that only reads. -/
theorem obeys_read {c : AccessCall} {f : c.Reply → AccessSteps β}
    (hfree : ∀ u, (tokenRules S E).allowed u c)
    (hsame : ∀ (u : AccessWorld) e, (u.answer e c).1 = u)
    (h : ∀ u, Evolves w u → (tokenRules S E).inv u → ∀ e,
      Obeys S E post (f (u.answer e c).2) u) :
    Obeys S E post (ask c >>= f) w :=
  obeys_call fun u hwu hinv => ⟨hfree u, fun e => by
    rw [hsame]
    exact h u hwu hinv e⟩

theorem quiet_done (a : β) : Quiet S E (.done a : AccessSteps β) :=
  fun _ => obeys_done fun _ _ => trivial

theorem Quiet.bind {p : AccessSteps α} {f : α → AccessSteps β} (hp : Quiet S E p)
    (hf : ∀ a, Quiet S E (f a)) : Quiet S E (p >>= f) :=
  fun w => (hp w).bind fun u a _ => hf a u

theorem quiet_free {c : AccessCall} {f : c.Reply → AccessSteps β}
    (hfree : ∀ u, (tokenRules S E).allowed u c) (h : ∀ r, Quiet S E (f r)) :
    Quiet S E (ask c >>= f) := fun w => obeys_free hfree fun r => h r w

/-- After a program that returns anything. -/
theorem obeys_after {p : AccessSteps α} {f : α → AccessSteps β}
    (hp : Obeys S E (fun _ _ => True) p w) (hf : ∀ a, Obeys S E post (f a) w) :
    Obeys S E post (p >>= f) w := by
  induction p generalizing w with
  | done a => exact hf a
  | call c next ih =>
      refine obeys_call fun u hwu hinv => ?_
      obtain ⟨hallowed, hnext⟩ := hp.meets u hwu hinv
      have hevolves := fun e => hwu.trans (kept_answer hinv hallowed e).2
      exact ⟨hallowed, fun e => ih _ ⟨hnext e⟩ fun a => (hf a).stable (hevolves e)⟩

/-- The world has evolved when a program returns. -/
theorem Obeys.evolved {p : AccessSteps β} {v : AccessWorld} (h : Obeys S E post p w)
    (hvw : Evolves v w) : Obeys S E (fun u a => post u a ∧ Evolves v u) p w := by
  induction p generalizing w with
  | done a => exact obeys_done fun u hwu => ⟨h.meets u hwu, hvw.trans hwu⟩
  | call c next ih =>
      refine obeys_call fun u hwu hinv => ?_
      obtain ⟨hallowed, hnext⟩ := h.meets u hwu hinv
      refine ⟨hallowed, fun e => ih _ ⟨hnext e⟩ ?_⟩
      exact (hvw.trans hwu).trans (kept_answer hinv hallowed e).2

/-- What holds of what a program returns where it does not fail. -/
def IfOk (P : AccessWorld → α → Prop) (u : AccessWorld) (r : Except AccessError α) : Prop :=
  ∀ a, r = .ok a → P u a

theorem obeys_error {P : AccessWorld → α → Prop} {e : AccessError} :
    Obeys S E (IfOk P) (.done (.error e)) w :=
  obeys_done fun _ _ _ h => nomatch h

theorem obeys_ok {P : AccessWorld → α → Prop} {a : α} (h : ∀ u, Evolves w u → P u a) :
    Obeys S E (IfOk P) (.done (.ok a)) w := by
  refine obeys_done fun u hwu _ heq => ?_
  cases heq
  exact h u hwu

theorem obeys_orFail {P : AccessWorld → α → Prop} {Q : AccessWorld → β → Prop}
    {p : AccessSteps (Except AccessError α)} {f : α → AccessSteps (Except AccessError β)}
    (hp : Obeys S E (IfOk P) p w) (hf : ∀ u a, P u a → Obeys S E (IfOk Q) (f a) u) :
    Obeys S E (IfOk Q) (orFail p f) w := by
  refine hp.bind fun u r hr => ?_
  cases r with
  | error e => exact obeys_error
  | ok a => exact hf u a (hr a rfl)

/-- What follows a step that may fail keeps the rules. -/
theorem Obeys.orFail {P : AccessWorld → α → Prop} {p : AccessSteps (Except AccessError α)}
    {f : α → AccessSteps (Except AccessError β)} (hp : Obeys S E (IfOk P) p w)
    (hf : ∀ u a, P u a → Obeys S E (fun _ _ => True) (f a) u) :
    Obeys S E (fun _ _ => True) (orFail p f) w := by
  refine hp.bind fun u r hr => ?_
  cases r with
  | error e => exact quiet_done _ u
  | ok a => exact hf u a (hr a rfl)

theorem Quiet.orFail {p : AccessSteps (Except AccessError α)}
    {f : α → AccessSteps (Except AccessError β)} (hp : Quiet S E p)
    (hf : ∀ a, Quiet S E (f a)) : Quiet S E (orFail p f) := by
  refine hp.bind fun r => ?_
  cases r with
  | error e => exact quiet_done _
  | ok a => exact hf a

end

section
variable {S : TokenService} {E : String → String → Prop}

theorem quiet_auditEvent (actorEmail action resourceID pluginID : String) :
    Quiet S E (TokenService.auditEvent actorEmail action resourceID pluginID) :=
  quiet_free (fun _ => trivial) fun _ => quiet_done ()

theorem quiet_readAgain (failed tokenID : String) (reply : Except String Bool) :
    Quiet S E (TokenService.readAgain failed tokenID reply) := by
  rcases reply with e | _ | _
  · exact quiet_done _
  · exact quiet_done _
  · refine quiet_free (fun _ => trivial) fun r => ?_
    rcases r with e | _ | row <;> exact quiet_done _

theorem quiet_findOwned (pluginID tokenID : String) :
    Quiet S E (TokenService.findOwned pluginID tokenID) := by
  refine quiet_free (fun _ => trivial) fun r => ?_
  rcases r with e | _ | row
  · exact quiet_done _
  · exact quiet_done _
  · dsimp only
    split_ifs <;> exact quiet_done _

theorem quiet_revoke (pluginID tokenID actorEmail : String) :
    Quiet S E (TokenService.revoke pluginID tokenID actorEmail) :=
  (quiet_findOwned pluginID tokenID).orFail fun _ =>
    quiet_free (fun _ => trivial) fun _ => quiet_free (fun _ => trivial) fun r =>
      (quiet_readAgain _ tokenID r).orFail fun _ =>
        (quiet_auditEvent _ _ _ _).bind fun _ => quiet_done _

theorem quiet_listRows (pluginID : String) : Quiet S E (TokenService.listRows pluginID) := by
  refine quiet_free (fun _ => trivial) fun r => ?_
  cases r <;> exact quiet_done _

theorem quiet_anyPluginVersion (pluginID : String) :
    Quiet S E (TokenService.anyPluginVersion pluginID) := by
  refine quiet_free (fun _ => trivial) fun r => ?_
  cases r <;> exact quiet_done _

theorem quiet_list (pluginID : String) : Quiet S E (TokenService.list pluginID) := by
  refine quiet_free (fun _ => trivial) fun r => ?_
  rcases r with e | _ | row
  · exact quiet_done _
  · refine (quiet_anyPluginVersion pluginID).bind fun found => ?_
    cases found with
    | true => exact quiet_listRows pluginID
    | false => exact quiet_done _
  · exact quiet_listRows pluginID

theorem quiet_recordUse (tokenID route : String) :
    Quiet S E (TokenService.recordUse tokenID route) := by
  refine quiet_free (fun _ => trivial) fun time => quiet_free (fun _ => trivial) fun _ => ?_
  refine quiet_free (fun _ => trivial) fun time => quiet_free (fun _ => trivial) fun audited => ?_
  split_ifs
  · exact quiet_auditEvent _ _ _ _
  · exact quiet_done _

theorem quiet_revokeAllForPlugin (pluginID actorEmail : String) :
    Quiet S E (TokenService.revokeAllForPlugin pluginID actorEmail) := by
  refine quiet_free (fun _ => trivial) fun time => quiet_free (fun _ => trivial) fun r => ?_
  rcases r with e | _ | n
  · exact quiet_done _
  · exact quiet_done _
  · exact (quiet_auditEvent _ _ _ _).bind fun _ => quiet_done _

/-- The manifest of the enabled version asks for nothing that `E` does not permit. -/
theorem obeys_enabledManifest (pluginID : String) (w : AccessWorld) :
    Obeys S E (IfOk fun _ a => ∀ s ∈ allowedScopes a.2, E pluginID s)
      (S.enabledManifest pluginID) w := by
  refine obeys_read (fun _ => trivial) (fun _ _ => rfl) fun u hwu hinv e => ?_
  simp only [AccessWorld.answer]
  cases e.fault with
  | some err => exact obeys_error
  | none =>
      cases henabled : u.plugins.findEnabled pluginID with
      | none => exact obeys_error
      | some enabled =>
          obtain ⟨rfl, hstate, hfind⟩ := Registry.findEnabled_spec henabled
          exact obeys_ok fun _ _ =>
            hinv.1 enabled (Registry.find_mem (k := enabled.key) hfind) hstate

/-- The scopes that a request may store for a plugin. -/
theorem obeys_checkedScopes (pluginID : String) (scopes : List String) (w : AccessWorld) :
    Obeys S E (IfOk fun _ a => Sound E pluginID a.2) (S.checkedScopes pluginID scopes) w := by
  refine obeys_orFail (obeys_enabledManifest pluginID w) fun u a hpermitted => ?_
  cases hout : normalizeScopes scopes with
  | error err => exact obeys_error
  | ok out =>
      refine obeys_orFail (obeys_ok (P := fun _ b => b = out) fun _ _ => rfl) ?_
      rintro v _ rfl
      split_ifs with hsubset
      · exact obeys_ok fun _ _ => sound_of_subset hpermitted hout (by simpa using hsubset)
      · exact obeys_error

theorem obeys_issue {pluginID : String} {scopes : List String} (h : Sound E pluginID scopes)
    (userID : ℤ) (input : CreateTokenInput) (actorEmail : String) (enabled : PluginVersion)
    (uuid secret : String) :
    Quiet S E (S.issue pluginID userID input actorEmail enabled scopes uuid secret) := by
  refine quiet_free (fun _ => h) fun r => ?_
  cases r with
  | some e => exact quiet_done _
  | none => exact (quiet_auditEvent _ _ _ _).bind fun _ => quiet_done _

theorem quiet_create (pluginID : String) (userID : ℤ) (input : CreateTokenInput)
    (actorEmail : String) : Quiet S E (S.create pluginID userID input actorEmail) := by
  refine fun w => (obeys_checkedScopes pluginID input.scopes w).orFail fun u a hsound => ?_
  refine obeys_free (fun _ => trivial) fun r => ?_
  rcases r with e | ⟨uuid, secret⟩
  · exact quiet_done _ u
  · exact obeys_issue hsound userID input actorEmail a.1 uuid secret u

/-- The token is the plugin's, now and later. -/
def Owned (pluginID tokenID : String) (w : AccessWorld) : Prop :=
  ∃ t ∈ w.tokens.rows, t.id = tokenID ∧ t.pluginID = pluginID

theorem Owned.evolves {pluginID tokenID : String} {w u : AccessWorld}
    (h : Owned pluginID tokenID w) (hwu : Evolves w u) : Owned pluginID tokenID u := by
  obtain ⟨t, ht, hid, hplugin⟩ := h
  obtain ⟨t', ht', hcont⟩ := hwu.tokens t ht
  exact ⟨t', ht', hcont.id.trans hid, hcont.pluginID.trans hplugin⟩

/-- Sound scopes may be stored for a token of the plugin. -/
theorem obeys_updateScopes {α : Type} {post : AccessWorld → α → Prop} {w : AccessWorld}
    {pluginID tokenID : String} {scopes : List String} (howned : Owned pluginID tokenID w)
    (hsound : Sound E pluginID scopes) {f : Except String Bool → AccessSteps α}
    (h : ∀ r, Obeys S E post (f r) w) :
    Obeys S E post (ask (.updateScopes tokenID scopes) >>= f) w := by
  refine obeys_call fun u hwu hinv => ?_
  have hallowed : (tokenRules S E).allowed u (.updateScopes tokenID scopes) := by
    intro t ht hid
    obtain ⟨t', ht', hid', hplugin⟩ := howned.evolves hwu
    rw [u.tokens.eq_of_id ht ht' (hid.trans hid'.symm), hplugin]
    exact hsound
  exact ⟨hallowed, fun e => (h _).stable (hwu.trans (kept_answer hinv hallowed e).2)⟩

theorem obeys_findOwned (pluginID tokenID : String) (w : AccessWorld) :
    Obeys S E (IfOk fun u _ => Owned pluginID tokenID u)
      (TokenService.findOwned pluginID tokenID) w := by
  refine obeys_read (fun _ => trivial) (fun _ _ => rfl) fun u hwu hinv e => ?_
  simp only [AccessWorld.answer]
  cases e.fault with
  | some err => exact obeys_error
  | none =>
      cases hfind : u.tokens.rows.find? fun t => t.id = tokenID with
      | none => exact obeys_error
      | some row =>
          dsimp only [readReply]
          split_ifs with hplugin
          · exact obeys_error
          · have howned : Owned pluginID tokenID u := ⟨row, List.mem_of_find?_eq_some hfind,
              by simpa using List.find?_some hfind, not_not.mp hplugin⟩
            exact obeys_ok fun _ huv => howned.evolves huv

theorem quiet_storeScopes {pluginID : String} {scopes : List String} (h : Sound E pluginID scopes)
    (tokenID actorEmail : String) :
    Quiet S E (TokenService.storeScopes pluginID tokenID scopes actorEmail) := by
  refine fun w => (obeys_findOwned pluginID tokenID w).orFail fun u row howned => ?_
  split
  · exact quiet_done _ u
  · exact obeys_updateScopes howned h fun r =>
      (quiet_readAgain _ tokenID r).orFail (fun _ =>
        (quiet_auditEvent _ _ _ _).bind fun _ => quiet_done _) u

theorem quiet_updateScopes (pluginID tokenID : String) (scopes : List String)
    (actorEmail : String) : Quiet S E (S.updateScopes pluginID tokenID scopes actorEmail) :=
  fun w => (obeys_checkedScopes pluginID scopes w).orFail fun u _ hsound =>
    quiet_storeScopes hsound tokenID actorEmail u

/-- A row that the loop of `ReconcileAfterSwitch` comes to. -/
theorem obeys_truncate {pluginID : String} {row : AccessToken} {w : AccessWorld}
    (howned : Owned row.pluginID row.id w) (hsound : Sound E row.pluginID row.scopes)
    (permissions : List String) (actorEmail : String) :
    Obeys S E (fun _ _ => True) (TokenService.truncate pluginID permissions actorEmail row) w := by
  unfold TokenService.truncate
  split_ifs with hnil
  · refine obeys_free (fun _ => trivial) fun time => obeys_free (fun _ => trivial) fun r => ?_
    exact (quiet_readAgain _ row.id r).orFail (fun _ => (quiet_auditEvent _ _ _ _).bind fun _ =>
      (quiet_auditEvent _ _ _ _).bind fun _ => quiet_done _) w
  · refine obeys_updateScopes howned (sound_intersect hsound hnil) fun r => ?_
    exact (quiet_readAgain _ row.id r).orFail (fun _ =>
      (quiet_auditEvent _ _ _ _).bind fun _ => quiet_done _) w

theorem obeys_truncateAll {pluginID : String} {rows : List AccessToken} {w : AccessWorld}
    (hrows : ∀ row ∈ rows, Owned row.pluginID row.id w ∧ Sound E row.pluginID row.scopes)
    (permissions : List String) (actorEmail : String) :
    Obeys S E (fun _ _ => True) (TokenService.truncateAll pluginID permissions actorEmail rows)
      w := by
  induction rows generalizing w with
  | nil => exact quiet_done _ w
  | cons row rows ih =>
      rw [TokenService.truncateAll]
      split_ifs
      · exact ih fun row hrow => hrows row (List.mem_cons_of_mem _ hrow)
      · obtain ⟨howned, hsound⟩ := hrows row List.mem_cons_self
        refine obeys_after (obeys_truncate howned hsound permissions actorEmail) fun r => ?_
        cases r with
        | error e => exact quiet_done _ w
        | ok _ => exact ih fun row hrow => hrows row (List.mem_cons_of_mem _ hrow)

theorem quiet_reconcileAfterSwitch (pluginID : String) (permissions : List String)
    (actorEmail : String) :
    Quiet S E (TokenService.reconcileAfterSwitch pluginID permissions actorEmail) := by
  intro w
  refine obeys_read (fun _ => trivial) (fun _ _ => rfl) fun u hwu hinv e => ?_
  simp only [AccessWorld.answer]
  cases e.fault with
  | some err => exact quiet_done _ u
  | none =>
      refine obeys_truncateAll (fun row hrow => ?_) permissions actorEmail
      have hrow := (List.mem_filter.mp hrow).1
      exact ⟨⟨row, hrow, rfl, rfl⟩, hinv.2 row hrow⟩

/-- What was so when a request began is so. -/
structure Since (b : Begun) (w : AccessWorld) : Prop where
  now : b.now ≤ w.now
  revoked : ∀ id ∈ b.revoked, ∃ t ∈ w.tokens.rows, t.id = id ∧ t.revokedAt ≠ none

theorem since_of (w : AccessWorld) : Since (.of w) w where
  now := le_rfl
  revoked id hid := by
    obtain ⟨t, ht, rfl⟩ := List.mem_map.mp hid
    obtain ⟨hmem, hrevoked⟩ := List.mem_filter.mp ht
    exact ⟨t, hmem, rfl, by simpa using hrevoked⟩

theorem Since.evolves {b : Begun} {w u : AccessWorld} (h : Since b w) (hwu : Evolves w u) :
    Since b u where
  now := h.now.trans hwu.now
  revoked id hid := by
    obtain ⟨t, ht, rfl, hrevoked⟩ := h.revoked id hid
    obtain ⟨t', ht', hcont⟩ := hwu.tokens t ht
    refine ⟨t', ht', hcont.id, ?_⟩
    rw [(hcont.revoked hrevoked).1]
    exact hrevoked

end

/-- A token that is accepted: it has the hash of the secret, it was neither revoked nor
expired when the request began, and its scopes are known and permitted. -/
structure Accepted (S : TokenService) (E : String → String → Prop) (b : Begun)
    (plaintext : String) (row : AccessToken) (scopes : List String) : Prop where
  hash : row.tokenHash = S.hash (trimSpace plaintext)
  live : row.id ∉ b.revoked
  unexpired : ∀ expiry ∈ row.expiresAt, b.now ≤ expiry
  scopes_eq : scopes = row.scopes
  sound : Sound E row.pluginID row.scopes

section
variable {S : TokenService} {E : String → String → Prop} {b : Begun} {w : AccessWorld}

theorem obeys_letIn {row : AccessToken} {plaintext : String} (hsince : Since b w)
    (hash : row.tokenHash = S.hash (trimSpace plaintext))
    (hlive : row.revokedAt = none → row.id ∉ b.revoked)
    (hsound : Sound E row.pluginID row.scopes) :
    Obeys S E (IfOk fun _ a => Accepted S E b plaintext a.1 a.2) (TokenService.letIn row) w := by
  unfold TokenService.letIn
  split_ifs with hrevoked
  · exact obeys_error
  · refine obeys_read (fun _ => trivial) (fun _ _ => rfl) fun u hwu _ e => ?_
    split_ifs with hexpired
    · exact obeys_error
    · refine obeys_free (fun _ => trivial) fun r => ?_
      rcases r with e | _ | enabled
      · exact obeys_error
      · exact obeys_error
      · refine obeys_ok fun _ _ => ⟨hash, hlive (not_not.mp hrevoked), fun expiry hexpiry => ?_,
          rfl, hsound⟩
        have htime : ¬ expiry < u.now := fun hlt => hexpired ⟨expiry, hexpiry, hlt⟩
        exact (hsince.now.trans hwu.now).trans (not_lt.mp htime)

theorem obeys_authenticate (hsince : Since b w) (plaintext : String) :
    Obeys S E (IfOk fun _ a => Accepted S E b plaintext a.1 a.2) (S.authenticate plaintext) w := by
  unfold TokenService.authenticate
  split
  · exact obeys_error
  · refine obeys_read (fun _ => trivial) (fun _ _ => rfl) fun u hwu hinv e => ?_
    simp only [AccessWorld.answer]
    cases e.fault with
    | some err => exact obeys_error
    | none =>
        cases hfind : u.tokens.rows.find?
            fun t => t.tokenHash = S.hash (trimSpace plaintext) with
        | none => exact obeys_error
        | some row =>
            have hrow := List.mem_of_find?_eq_some hfind
            have hhash : row.tokenHash = S.hash (trimSpace plaintext) := by
              simpa using List.find?_some hfind
            refine obeys_letIn (hsince.evolves hwu) hhash (fun hnone hid => ?_) (hinv.2 row hrow)
            obtain ⟨t, ht, hid, hrevoked⟩ := (hsince.evolves hwu).revoked row.id hid
            exact hrevoked (u.tokens.eq_of_id ht hrow hid ▸ hnone)

end

/-- The parts of a path that ends in a slash and a text. -/
theorem pathParts_suffix {path rest : String} (h : '/' :: rest.toList <:+ path.toList) :
    ∃ front, front ≠ [] ∧ pathParts path = front ++ pathParts rest := by
  obtain ⟨front, hpath⟩ := h
  refine ⟨(front.splitOn '/').map String.ofList, by simp [List.splitOn_ne_nil], ?_⟩
  rw [pathParts, ← hpath, List.splitOn_append_cons_self, List.map_append, pathParts]

theorem matchSegments_append {ps : List Segment} {xs ys : List String}
    (h : matchSegments ps (xs ++ ys) = true) :
    matchSegments (ps.drop xs.length) ys = true := by
  induction xs generalizing ps with
  | nil => exact h
  | cons x xs ih =>
      cases ps with
      | nil => simp at h
      | cons p ps =>
          refine ih ?_
          cases p with
          | text s =>
              obtain ⟨ts, hts, hmatch⟩ := (matchSegments_text ..).mp h
              obtain ⟨rfl, rfl⟩ := List.cons.inj hts
              exact hmatch
          | param n =>
              obtain ⟨t, ts, hts, -, hmatch⟩ := (matchSegments_param ..).mp h
              obtain ⟨rfl, rfl⟩ := List.cons.inj hts
              exact hmatch

/-- The routes that a stream request may have. The last one is no stream. -/
def streamRoutes : List Route :=
  [guarded .get "/query/tail" "query:read" [],
    sessionOnly .get "/terminal/ws" [],
    guarded .get "/websites/:id/ssl/certbot/stream" "ssl:read" [],
    guarded .get "/cronjobs/:id/run/stream" "cron:read" [],
    sessionOnly .get "/plugins/catalog/:vendor/:name" [.pluginID]]

/-- The routes that need no session. -/
def openRoutes : List Route :=
  [⟨.get, [.text "health"], [], [], .other⟩, api .get "/auth/login" [] [],
    api .post "/auth/login" [] []]

theorem streamRoutes_exact : ∀ r ∈ routes, r.method = .get →
    matchSegments r.pattern ["api", "v1", "query", "tail"] = true ∨
      matchSegments r.pattern ["api", "v1", "terminal", "ws"] = true → r ∈ streamRoutes := by
  decide +kernel

theorem streamRoutes_suffix : ∀ r ∈ routes, r.method = .get → ∀ n ≤ r.pattern.length,
    matchSegments (r.pattern.drop n) ["ssl", "certbot", "stream"] = true ∨
      matchSegments (r.pattern.drop n) ["run", "stream"] = true → r ∈ streamRoutes := by
  decide +kernel

/-- A path that ends in two or three texts has a pattern that ends so. -/
theorem pattern_of_suffix {r : Route} {path rest : String} (h : r.matchesPath path = true)
    (hsuffix : '/' :: rest.toList <:+ path.toList) :
    ∃ n ≤ r.pattern.length, matchSegments (r.pattern.drop n) (pathParts rest) = true := by
  obtain ⟨segs, hpath, hmatch⟩ := Route.matchesPath_iff.mp h
  obtain ⟨front, hne, hparts⟩ := pathParts_suffix hsuffix
  obtain ⟨first, front, rfl⟩ := List.exists_cons_of_ne_nil hne
  rw [hpath, List.cons_append, List.cons.injEq] at hparts
  obtain ⟨-, rfl⟩ := hparts
  have hdrop := matchSegments_append hmatch
  by_cases hn : front.length ≤ r.pattern.length
  · exact ⟨front.length, hn, hdrop⟩
  · refine ⟨r.pattern.length, le_rfl, ?_⟩
    rwa [List.drop_length, ← List.drop_eq_nil_of_le (Nat.le_of_not_le hn)]

theorem stream_route {r : Route} {path : String} (hr : r ∈ routes) (hmethod : r.method = .get)
    (hpath : r.matchesPath path = true) (hstream : isStreamRequest .get path = true) :
    r ∈ streamRoutes := by
  have hstream : path ∈ streamPaths ∨ ∃ suffix ∈ streamPathSuffixes,
      suffix.toList <:+ path.toList := by simpa [isStreamRequest] using hstream
  obtain hexact | ⟨suffix, hmem, hsuffix⟩ := hstream
  · obtain ⟨segs, hparts, hmatch⟩ := Route.matchesPath_iff.mp hpath
    have htail : pathParts "/api/v1/query/tail" = "" :: ["api", "v1", "query", "tail"] := by
      decide +kernel
    have hws : pathParts "/api/v1/terminal/ws" = "" :: ["api", "v1", "terminal", "ws"] := by
      decide +kernel
    simp only [streamPaths, List.mem_cons, List.not_mem_nil, or_false] at hexact
    refine streamRoutes_exact r hr hmethod ?_
    obtain rfl | rfl := hexact
    · rw [htail, List.cons.injEq] at hparts
      exact .inl (hparts.2 ▸ hmatch)
    · rw [hws, List.cons.injEq] at hparts
      exact .inr (hparts.2 ▸ hmatch)
  · have hcertbot : pathParts "ssl/certbot/stream" = ["ssl", "certbot", "stream"] := by
      decide +kernel
    have hrun : pathParts "run/stream" = ["run", "stream"] := by decide +kernel
    simp only [streamPathSuffixes, List.mem_cons, List.not_mem_nil, or_false] at hmem
    obtain rfl | rfl := hmem
    · have hsuffix : '/' :: "ssl/certbot/stream".toList <:+ path.toList := hsuffix
      obtain ⟨n, hn, hmatch⟩ := pattern_of_suffix hpath hsuffix
      exact streamRoutes_suffix r hr hmethod n hn (.inl (hcertbot ▸ hmatch))
    · have hsuffix : '/' :: "run/stream".toList <:+ path.toList := hsuffix
      obtain ⟨n, hn, hmatch⟩ := pattern_of_suffix hpath hsuffix
      exact streamRoutes_suffix r hr hmethod n hn (.inr (hrun ▸ hmatch))

/-- What guards there are. -/
inductive GuardShape : List Guard → Prop where
  | bare : GuardShape []
  | basic : GuardShape [.basicAuth]
  | session : GuardShape [.basicAuth, .session]
  | sessionOnly : GuardShape [.basicAuth, .sessionOrToken, .sessionOnly]
  | tokenOnly : GuardShape [.basicAuth, .tokenOnly]
  | scope (required : String) : GuardShape [.basicAuth, .sessionOrToken, .scope required]

/-- The scope of a route, if its guards end in one. -/
def scopeOf : List Guard → Option String
  | [.basicAuth, .sessionOrToken, .scope required] => some required
  | _ => none

theorem routes_shaped : ∀ r ∈ routes, r.guards = [] ∨ r.guards = [.basicAuth] ∨
    r.guards = [.basicAuth, .session] ∨ r.guards = [.basicAuth, .sessionOrToken, .sessionOnly] ∨
    r.guards = [.basicAuth, .tokenOnly] ∨
    r.guards = [.basicAuth, .sessionOrToken, .scope ((scopeOf r.guards).getD "")] := by
  decide +kernel

theorem guardShape {r : Route} (hr : r ∈ routes) : GuardShape r.guards := by
  obtain h | h | h | h | h | h := routes_shaped r hr
  · exact h ▸ .bare
  · exact h ▸ .basic
  · exact h ▸ .session
  · exact h ▸ .sessionOnly
  · exact h ▸ .tokenOnly
  · exact h ▸ .scope _

theorem openRoutes_unguarded : ∀ r ∈ routes, r.guards = [] ∨ r.guards = [.basicAuth] →
    r ∈ openRoutes := by decide +kernel

theorem health_bare : ∀ r ∈ routes, r.guards = [] → r.pattern = [.text "health"] := by
  decide +kernel

section
variable (S : TokenService) (E : String → String → Prop) (cfg : PanelConfig) (b : Begun)
  (req : HttpRequest)

/-- A principal that comes from a session, or from a token. -/
def FromSession (q : Principal) : Prop := req.session ≠ "" ∧ ∃ user, q = .session user

def FromToken (q : Principal) : Prop :=
  ∃ row scopes, q = .token row scopes ∧ Accepted S E b req.token row scopes

/-- What it says of the principal that a guard lets the request pass. -/
def Passes (p q : Principal) : Guard → Prop
  | .basicAuth => q = p ∧ (cfg.authEnable = false ∨ isStreamRequest req.method req.path = true ∨
      req.basic = some (cfg.authUser, cfg.authPass))
  | .session => FromSession req q
  | .sessionOrToken => FromSession req q ∨ FromToken S E b req q
  | .sessionOnly => q = p ∧ ∀ row scopes, p ≠ .token row scopes
  | .tokenOnly => FromToken S E b req q
  | .scope required => q = p ∧ ∀ row scopes, p = .token row scopes → hasScope scopes required = true

/-- What it says that all guards let it pass. -/
def PassesAll (p q : Principal) : List Guard → Prop
  | [] => q = p
  | guard :: guards => ∃ p', Passes S E cfg b req p p' guard ∧ PassesAll p' q guards

end

section
variable {S : TokenService} {E : String → String → Prop} {cfg : PanelConfig} {b : Begun}
  {req : HttpRequest} {w : AccessWorld}

theorem obeys_requireSession :
    Obeys S E (IfOk fun _ => FromSession req) (requireSession req) w := by
  unfold requireSession
  split
  · exact obeys_error
  · rename_i hsession
    refine obeys_free (fun _ => trivial) fun r => ?_
    cases r with
    | none => exact obeys_error
    | some user => exact obeys_ok fun _ _ => ⟨hsession, user, rfl⟩

theorem obeys_requireToken (hsince : Since b w) :
    Obeys S E (IfOk fun _ => FromToken S E b req) (requireToken S req) w := by
  refine obeys_orFail (obeys_authenticate hsince (trimSpace req.token)) fun u a ha => ?_
  obtain ⟨hhash, hlive, hunexpired, hscopes, hsound⟩ := ha
  exact obeys_ok fun _ _ => ⟨a.1, a.2, rfl, by rw [hhash, trimSpace_trimSpace], hlive, hunexpired,
    hscopes, hsound⟩

theorem obeys_check (hsince : Since b w) (p : Principal) (guard : Guard) :
    Obeys S E (IfOk fun _ q => Passes S E cfg b req p q guard) (guard.check S cfg req p) w := by
  cases guard with
  | basicAuth =>
      simp only [Guard.check, basicAuth, pure_eq]
      split_ifs with hok
      · exact obeys_ok fun _ _ => ⟨rfl, by simpa using hok⟩
      · exact obeys_error
  | session => exact obeys_requireSession
  | sessionOrToken =>
      simp only [Guard.check, requireSessionOrToken]
      split
      · exact obeys_requireSession.mono fun _ _ h q hq => .inl (h q hq)
      · split
        · exact obeys_error
        · exact (obeys_requireToken hsince).mono fun _ _ h q hq => .inr (h q hq)
  | sessionOnly =>
      cases p with
      | token row scopes => exact obeys_error
      | nobody | session user => exact obeys_ok fun _ _ => ⟨rfl, nofun⟩
  | tokenOnly =>
      simp only [Guard.check, requireTokenOnly]
      split
      · exact obeys_error
      · exact obeys_requireToken hsince
  | scope required =>
      cases p with
      | token row scopes =>
          simp only [Guard.check, requireScope, pure_eq]
          split_ifs with hscope
          · refine obeys_ok fun _ _ => ⟨rfl, fun row' scopes' heq => ?_⟩
            cases heq
            exact hscope
          · exact obeys_error
      | nobody | session user => exact obeys_ok fun _ _ => ⟨rfl, nofun⟩

theorem obeys_runGuards (hsince : Since b w) (p : Principal) (guards : List Guard) :
    Obeys S E (IfOk fun _ q => PassesAll S E cfg b req p q guards)
      (runGuards S cfg req p guards) w := by
  induction guards generalizing p w with
  | nil => exact obeys_ok fun _ _ => rfl
  | cons guard guards ih =>
      rw [runGuards]
      have hcheck : Obeys S E (IfOk fun u q => Passes S E cfg b req p q guard ∧ Evolves w u)
          (guard.check S cfg req p) w :=
        ((obeys_check hsince p guard).evolved (.refl w)).mono fun u r hr q hq =>
          ⟨hr.1 q hq, hr.2⟩
      refine obeys_orFail hcheck fun u p' hp' => ?_
      exact (ih (hsince.evolves hp'.2) p').mono fun _ _ h q hq => ⟨p', hp'.1, h q hq⟩

theorem quiet_sessionActor : Quiet S E (sessionActor req) := by
  unfold sessionActor
  split
  · exact quiet_done _
  · refine quiet_free (fun _ => trivial) fun r => ?_
    cases r with
    | none => exact quiet_done _
    | some user =>
        refine quiet_free (fun _ => trivial) fun r => ?_
        cases r <;> exact quiet_done _

theorem quiet_createHandler : Quiet S E (createHandler S req) :=
  (quiet_done _).orFail fun pluginID => quiet_sessionActor.orFail fun actor =>
    (quiet_done _).orFail fun input => quiet_create pluginID actor.1 input actor.2

theorem quiet_patchHandler : Quiet S E (patchHandler S req) :=
  (quiet_done _).orFail fun pluginID => (quiet_done _).orFail fun tokenID =>
    quiet_sessionActor.orFail fun actor => (quiet_done _).orFail fun input =>
      quiet_updateScopes pluginID tokenID input.scopes actor.2

theorem quiet_deleteHandler : Quiet S E (deleteHandler req) :=
  (quiet_done _).orFail fun pluginID => (quiet_done _).orFail fun tokenID =>
    quiet_sessionActor.orFail fun actor => quiet_revoke pluginID tokenID actor.2

theorem quiet_listHandler : Quiet S E (listHandler req) :=
  (quiet_done _).orFail fun pluginID => quiet_list pluginID

theorem quiet_authenticate (plaintext : String) : Quiet S E (S.authenticate plaintext) :=
  fun w => (obeys_authenticate (since_of w) plaintext).mono fun _ _ _ => trivial

theorem quiet_serve (endpoint : Endpoint) : Quiet S E (endpoint.serve S req) := by
  cases endpoint with
  | other => exact quiet_free (fun _ => trivial) fun status => quiet_done status
  | listTokens => exact quiet_listHandler.bind fun r => quiet_done _
  | createToken => exact quiet_createHandler.bind fun r => quiet_done _
  | patchToken => exact quiet_patchHandler.bind fun r => quiet_done _
  | deleteToken => exact quiet_deleteHandler.bind fun r => quiet_done _
  | self => exact (quiet_authenticate _).bind fun r => quiet_done _

theorem quiet_afterHandler (p : Principal) (status : ℕ) :
    Quiet S E (afterHandler req p status) := by
  cases p with
  | token row scopes =>
      dsimp only [afterHandler]
      split
      · exact quiet_recordUse _ _
      · exact quiet_done _
  | nobody | session user => exact quiet_done _

end

/-- What became of a request is as its route demands. -/
def HttpOutcome.Proper (S : TokenService) (E : String → String → Prop) (R : Router)
    (cfg : PanelConfig) : HttpOutcome → Prop
  | .served b req route principal _ =>
      R.find req.method req.path = some route ∧
        PassesAll S E cfg b req .nobody principal route.guards
  | _ => True

section
variable {S : TokenService} {E : String → String → Prop} {R : Router} {cfg : PanelConfig}
  {w : AccessWorld}

theorem obeys_request (req : HttpRequest) :
    Obeys S E (fun _ o => o.Proper S E R cfg) (req.program S R cfg (.of w)) w := by
  unfold HttpRequest.program
  split
  · exact obeys_done fun _ _ => trivial
  · cases hfind : R.find req.method req.path with
    | none => exact obeys_done fun _ _ => trivial
    | some route =>
        refine (obeys_runGuards (since_of w) .nobody route.guards).bind fun u r hr => ?_
        cases r with
        | error e => exact obeys_done fun _ _ => trivial
        | ok principal =>
            refine obeys_after (quiet_serve route.endpoint u) fun status => ?_
            refine obeys_after (quiet_afterHandler principal status u) fun _ => ?_
            exact obeys_done fun _ _ => ⟨hfind, hr principal rfl⟩

theorem obeys_upkeep (task : TokenUpkeep) :
    Obeys S E (fun _ o => o.Proper S E R cfg) task.program w := by
  cases task with
  | reconcile pluginID permissions =>
      exact obeys_after (quiet_reconcileAfterSwitch pluginID permissions "" w) fun _ =>
        obeys_done fun _ _ => trivial
  | revokeAll pluginID =>
      exact obeys_after (quiet_revokeAllForPlugin pluginID "" w) fun _ =>
        obeys_done fun _ _ => trivial

/-- The pool keeps the rules. -/
abbrev Orderly (S : TokenService) (E : String → String → Prop) (R : Router) (cfg : PanelConfig)
    (s : AccessPool) : Prop :=
  s.Follows AccessWorld.answer ((tokenRules S E).protocol fun _ o => o.Proper S E R cfg)

theorem orderly_fresh {plugins : Registry} (h : Covers S E plugins) (now : ℤ) :
    Orderly S E R cfg (freshAccess plugins now) where
  inv := ⟨h, nofun⟩
  meets _ := (obeys_done (S := S) (E := E) (w := ⟨plugins, .empty, fun _ => none, [], now⟩)
    fun _ _ => trivial).meets

theorem orderly_step {s t : AccessPool} {a : AccessAction} (h : Orderly S E R cfg s)
    (ht : accessStep S R cfg s a = some t) (hcovers : Covers S E t.shared.plugins) :
    Orderly S E R cfg t := by
  cases a with
  | request client req => exact h.start (obeys_request req).meets ht
  | upkeep client task => exact h.start (obeys_upkeep task).meets ht
  | call client e =>
      exact (h.call (fun s c next e hinv hgood => kept_answer hinv hgood e) ht).1
  | plugins plugins =>
      cases ht
      exact ⟨⟨hcovers, h.inv.2⟩, fun i => (h.meets i).stable ⟨le_rfl, fun t ht => ⟨t, ht, .refl t⟩⟩⟩
  | tick seconds =>
      cases ht
      refine ⟨h.inv, fun i => (h.meets i).stable ⟨?_, fun t ht => ⟨t, ht, .refl t⟩⟩⟩
      exact le_add_of_nonneg_right (Int.natCast_nonneg seconds)

theorem orderly_run {actions : List AccessAction} {s t : AccessPool} (h : Orderly S E R cfg s)
    (hcovers : Along (accessStep S R cfg) (fun s => Covers S E s.shared.plugins) s actions)
    (hrun : run (accessStep S R cfg) s actions = some t) : Orderly S E R cfg t := by
  induction actions generalizing s with
  | nil =>
      cases hrun
      exact h
  | cons a actions ih =>
      obtain ⟨u, hu, hrun⟩ := Option.bind_eq_some_iff.mp hrun
      have hrest := hcovers.2 u hu
      exact ih (orderly_step h hu hrest.head) hrest hrun

/-- What is served was found by the router and let through by all guards of the route. -/
theorem proper_of_served {s : AccessPool} (h : Orderly S E R cfg s) {client : ℕ} {b : Begun}
    {req : HttpRequest} {route : Route} {principal : Principal} {status : ℕ}
    (hdone : s.threads client = .done (.served b req route principal status)) :
    R.find req.method req.path = some route ∧
      PassesAll S E cfg b req .nobody principal route.guards := by
  have hmeets := h.meets client
  rw [hdone] at hmeets
  exact hmeets s.shared (.refl s.shared)

end

/-- A token that a guard lets pass. -/
theorem mem_of_hasScope {scopes : List String} (h : ∀ s ∈ scopes, s ∈ knownScopes)
    {required : String} (hscope : hasScope scopes required = true) : required ∈ scopes := by
  obtain ⟨s, hs, htrim⟩ := List.any_eq_true.mp hscope
  rw [decide_eq_true_eq, trimSpace_of_known s (h s hs)] at htrim
  exact htrim ▸ hs

/-- A request with a token passed the guard of the token's own route, or that of a scope. -/
theorem passes_token {S : TokenService} {E : String → String → Prop} {cfg : PanelConfig}
    {b : Begun} {req : HttpRequest} {row : AccessToken} {scopes : List String}
    {guards : List Guard} (hshape : GuardShape guards)
    (h : PassesAll S E cfg b req .nobody (.token row scopes) guards) :
    Accepted S E b req.token row scopes ∧
      (guards = [.basicAuth, .tokenOnly] ∨ ∃ required, hasScope scopes required = true ∧
        guards = [.basicAuth, .sessionOrToken, .scope required]) := by
  cases hshape with
  | bare => cases h
  | basic =>
      obtain ⟨p, ⟨rfl, -⟩, hp⟩ := h
      cases hp
  | session =>
      obtain ⟨p, ⟨rfl, -⟩, q, ⟨-, user, rfl⟩, hq⟩ := h
      cases hq
  | sessionOnly =>
      obtain ⟨p, ⟨rfl, -⟩, q, -, r, ⟨rfl, hno⟩, rfl⟩ := h
      exact absurd rfl (hno row scopes)
  | tokenOnly =>
      obtain ⟨p, ⟨rfl, -⟩, q, ⟨row', scopes', rfl, haccepted⟩, hq⟩ := h
      cases hq
      exact ⟨haccepted, .inl rfl⟩
  | scope required =>
      obtain ⟨p, ⟨rfl, -⟩, q, hauth, r, ⟨rfl, hscope⟩, rfl⟩ := h
      obtain ⟨-, user, huser⟩ | ⟨row', scopes', hq, haccepted⟩ := hauth
      · cases huser
      · cases hq
        exact ⟨haccepted, .inr ⟨required, hscope row scopes rfl, rfl⟩⟩

/-- The route that runs a job at once. Its scope is not among the known ones. -/
def cronRunRoute : Route :=
  guarded .post "/cronjobs/:id/run" "cron:manage" [.resource "cronjobs"]

/-- In every run of the server, with any number of requests under way: a request with a token
is served only where the token has the hash of the secret and was neither revoked nor expired
when the request began, and where the route asks for one of its scopes. All its scopes are
known, and permitted wherever every version that was enabled is permitted what its manifest
asks for. -/
theorem token_served (S : TokenService) (E : String → String → Prop) (R : Router)
    (cfg : PanelConfig) {plugins : Registry} {now : ℤ} {actions : List AccessAction}
    {s : AccessPool}
    (hcovers : Along (accessStep S R cfg) (fun s => Covers S E s.shared.plugins)
      (freshAccess plugins now) actions)
    (hrun : run (accessStep S R cfg) (freshAccess plugins now) actions = some s)
    {client : ℕ} {b : Begun} {req : HttpRequest} {route : Route} {row : AccessToken}
    {scopes : List String} {status : ℕ}
    (hdone : s.threads client = .done (.served b req route (.token row scopes) status)) :
    row.tokenHash = S.hash (trimSpace req.token) ∧ row.id ∉ b.revoked ∧
      (∀ expiry ∈ row.expiresAt, b.now ≤ expiry) ∧
      (∀ scope ∈ row.scopes, scope ∈ knownScopes ∧ E row.pluginID scope) ∧
      (route.guards = [.basicAuth, .tokenOnly] ∨
        ∃ required ∈ row.scopes, route.guards = [.basicAuth, .sessionOrToken, .scope required]) ∧
      route ≠ cronRunRoute := by
  obtain ⟨hfind, hpasses⟩ := proper_of_served
    (orderly_run (orderly_fresh hcovers.head now) hcovers hrun) hdone
  obtain ⟨⟨hhash, hlive, hunexpired, rfl, hsound⟩, hguards⟩ :=
    passes_token (guardShape (R.registered hfind)) hpasses
  refine ⟨hhash, hlive, hunexpired, fun scope hmem => ⟨hsound.known scope hmem,
    hsound.permitted scope hmem⟩, ?_, ?_⟩
  · obtain hself | ⟨required, hscope, hguards⟩ := hguards
    · exact .inl hself
    · exact .inr ⟨required, mem_of_hasScope hsound.known hscope, hguards⟩
  · rintro rfl
    obtain hself | ⟨required, hscope, hguards⟩ := hguards
    · cases hself
    · have hknown := hsound.known required (mem_of_hasScope hsound.known hscope)
      obtain rfl : "cron:manage" = required := by simpa [cronRunRoute, guarded, api] using hguards
      exact absurd hknown (by decide)

def demoPlugin : PluginVersion where
  id := 1
  pluginID := "acme/weather"
  version := "1.0.0"
  configVersion := "1"
  manifestJSON := "\x7b\x7d"
  artifactDigest := "digest"
  artifactPath := "/plugins/acme/weather/1.0.0/gosite-plugin.json"
  state := .enabled
  failureClass := ""
  failureMessage := ""
  sourceType := "upload"
  permissionsAckAt := none
  createdAt := 0

def demoPlugins : Registry where
  rows := [demoPlugin]
  keys_nodup := by simp
  one_enabled := by decide
  identified := by decide

def demoTokens : TokenService := ⟨fun s => "hash of " ++ s, fun _ => ["websites:read"]⟩

def demoPanel : PanelConfig := ⟨true, "admin", "secret", []⟩

/-- A request for a token by somebody with a session. -/
def demoIssue : HttpRequest where
  method := .post
  path := "/api/v1/plugins/acme/weather/integration-tokens"
  basic := some ("admin", "secret")
  session := "cookie"
  token := ""
  queryID := ""
  body := .ok ⟨"reader", ["websites:read"], none⟩

/-- A request with the token. -/
def demoUse : HttpRequest where
  method := .get
  path := "/api/v1/websites"
  basic := some ("admin", "secret")
  session := ""
  token := "gs_pat_x"
  queryID := ""
  body := .error (.new .invalidInput "empty body")

def demoWeather : Weather :=
  { secret := "x", uuid := "token", user := some 1, email := "admin@example.com" }

/-- The token is asked for and then used. -/
def demoAccess : List AccessAction :=
  .request 0 demoIssue :: List.replicate 7 (.call 0 demoWeather) ++
    .request 1 demoUse :: List.replicate 9 (.call 1 demoWeather)

/-- What a client was served. -/
def servedAs (s : AccessPool) (client : ℕ) :
    Option (Begun × HttpRequest × Route × Principal × ℕ) :=
  match s.threads client with
  | .call _ _ => none
  | .done o =>
      match o with
      | .served b req route principal status => some (b, req, route, principal, status)
      | _ => none

theorem served_of_servedAs {s : AccessPool} {client : ℕ} {b : Begun} {req : HttpRequest}
    {route : Route} {principal : Principal} {status : ℕ}
    (h : servedAs s client = some (b, req, route, principal, status)) :
    s.threads client = .done (.served b req route principal status) := by
  unfold servedAs at h
  split at h
  · cases h
  · rename_i o hthread
    split at h
    · cases h
      exact hthread
    · cases h

def Principal.isToken : Principal → Bool
  | .token _ _ => true
  | _ => false

theorem covers_demo (plugins : Registry) :
    Covers demoTokens (fun _ scope => scope = "websites:read") plugins := by
  intro p _ _ s hs
  have hallowed : allowedScopes ["websites:read"] = ["websites:read"] := by decide
  simpa [demoTokens, hallowed] using hs

/-- The token that was asked for reads the websites. -/
theorem token_served_demo : ∃ s b req route row scopes status,
    run (accessStep demoTokens firstRoute demoPanel) (freshAccess demoPlugins 0) demoAccess =
      some s ∧
    s.threads 1 = .done (.served b req route (.token row scopes) status) ∧
    row.id ∉ b.revoked ∧ route ≠ cronRunRoute := by
  have hrun : ((run (accessStep demoTokens firstRoute demoPanel) (freshAccess demoPlugins 0)
      demoAccess).any fun s => (servedAs s 1).any (·.2.2.2.1.isToken)) = true := by decide +kernel
  obtain ⟨s, hs, hany⟩ := (Option.any_eq_true ..).mp hrun
  obtain ⟨⟨b, req, route, principal, status⟩, hserved, htoken⟩ := (Option.any_eq_true ..).mp hany
  cases principal with
  | nobody | session user => cases htoken
  | token row scopes =>
      have hdone := served_of_servedAs hserved
      have hcovers : Along (accessStep demoTokens firstRoute demoPanel)
          (fun s => Covers demoTokens (fun _ scope => scope = "websites:read") s.shared.plugins)
          (freshAccess demoPlugins 0) demoAccess :=
        along_of_invariant (fun _ _ _ _ _ => covers_demo _) demoAccess (covers_demo _)
      obtain ⟨-, hlive, -, -, -, hroute⟩ := token_served demoTokens
        (fun _ scope => scope = "websites:read") firstRoute demoPanel hcovers hs hdone
      exact ⟨s, b, req, route, row, scopes, status, hs, hdone, hlive, hroute⟩

/-- A request that is nobody's passed no guard but that of basic authentication. -/
theorem passes_nobody {S : TokenService} {E : String → String → Prop} {cfg : PanelConfig}
    {b : Begun} {req : HttpRequest} {guards : List Guard} (hshape : GuardShape guards)
    (h : PassesAll S E cfg b req .nobody .nobody guards) :
    guards = [] ∨ guards = [.basicAuth] := by
  cases hshape with
  | bare => exact .inl rfl
  | basic => exact .inr rfl
  | session =>
      obtain ⟨p, -, q, ⟨-, user, rfl⟩, hq⟩ := h
      cases hq
  | sessionOnly =>
      obtain ⟨p, -, q, ⟨-, user, rfl⟩ | ⟨row, scopes, rfl, -⟩, r, ⟨rfl, -⟩, hr⟩ := h <;> cases hr
  | tokenOnly =>
      obtain ⟨p, -, q, ⟨row, scopes, rfl, -⟩, hq⟩ := h
      cases hq
  | scope required =>
      obtain ⟨p, -, q, ⟨-, user, rfl⟩ | ⟨row, scopes, rfl, -⟩, r, ⟨rfl, -⟩, hr⟩ := h <;> cases hr

/-- All other routes than the health check begin with basic authentication. -/
theorem passes_basic {S : TokenService} {E : String → String → Prop} {cfg : PanelConfig}
    {b : Begun} {req : HttpRequest} {principal : Principal} {guards : List Guard}
    (hshape : GuardShape guards) (hbare : guards ≠ [])
    (h : PassesAll S E cfg b req .nobody principal guards) :
    cfg.authEnable = false ∨ isStreamRequest req.method req.path = true ∨
      req.basic = some (cfg.authUser, cfg.authPass) := by
  cases hshape with
  | bare => exact absurd rfl hbare
  | basic | session | sessionOnly | tokenOnly | scope =>
      obtain ⟨p, ⟨-, hbasic⟩, -⟩ := h
      exact hbasic

theorem stream_not_open : ∀ r ∈ streamRoutes, r ∉ openRoutes := by decide +kernel

/-- Every version is permitted everything. -/
theorem along_unbounded (S : TokenService) (R : Router) (cfg : PanelConfig) (s : AccessPool)
    (actions : List AccessAction) :
    Along (accessStep S R cfg) (fun s => Covers S (fun _ _ => True) s.shared.plugins) s actions :=
  along_of_invariant (fun _ _ _ _ _ _ _ _ _ _ => trivial) actions fun _ _ _ _ _ => trivial

/-- A tail of the log with a session and no credentials. -/
def demoTail : HttpRequest :=
  { demoUse with path := "/api/v1/query/tail", basic := none, session := "cookie", token := "" }

end GoSite.Access
