import GoSite.TerminalRegistry

/-!
# The per-user session cap

`Create` compares the number of the user's sessions with the cap, starts a shell
and registers the session in a later section. Whether the cap still has room is
decided when the check runs, not when the session is registered.
-/
namespace GoSite.Terminal
open GuardedRuns

/-- The registered sessions of a user. -/
def Hub.sessionsOf (h : Hub) (userID : ℤ) : List SessionRef :=
  h.registered.filter (·.userID = userID)

/-- The configured maximum, or the default of `NewHub`. -/
def ServerConfig.maxPerUser (cfg : ServerConfig) : ℕ := (newHub cfg.perUser).perUser

/-- No user has more registered sessions than configured. -/
def Server.WithinCap (cfg : ServerConfig) (s : Server) : Prop :=
  ∀ userID, (s.hub.sessionsOf userID).length ≤ cfg.maxPerUser

/-- The sessions a registration of `r` leaves to the same user. -/
def Hub.othersOf (h : Hub) (r : SessionRef) : List SessionRef :=
  (h.sessionsOf r.userID).filter (·.id ≠ r.id)

/-- A session is registered only while the cap still has room for it. -/
def RegistersWithRoom (cfg : ServerConfig) (s : Server) : ServerAction → Prop
  | .advance (.register _ r) _ => (s.hub.othersOf r).length < cfg.maxPerUser
  | _ => True

instance (cfg : ServerConfig) (s : Server) (a : ServerAction) :
    Decidable (RegistersWithRoom cfg s a) := by
  unfold RegistersWithRoom
  split <;> infer_instance

/-- The hub of a server: every session stands under its own id. -/
structure Server.Keyed (cfg : ServerConfig) (s : Server) : Prop where
  id_eq : ∀ id r, s.hub.get id = some r → r.id = id
  perUser_eq : s.hub.perUser = cfg.maxPerUser

theorem init_keyed (cfg : ServerConfig) (dumps : List Char → Option (List OutByte)) :
    (Server.init cfg dumps).Keyed cfg where
  id_eq := by simp [Server.init]
  perUser_eq := rfl

section
variable {h : Hub}

theorem map_snd_kerase {id : String} {l : List (Sigma fun _ : String => SessionRef)}
    (hl : l.NodupKeys) (hid : ∀ e ∈ l, e.2.id = e.1) :
    (l.kerase id).map Sigma.snd = (l.map Sigma.snd).filter (·.id ≠ id) := by
  induction l with
  | nil => rfl
  | cons e l ih =>
      have he : e.2.id = e.1 := hid e List.mem_cons_self
      have hrest : ∀ f ∈ l, f.2.id = f.1 := fun f hf => hid f (List.mem_cons_of_mem _ hf)
      obtain ⟨hnot, hnodup⟩ := List.nodupKeys_cons.mp hl
      rw [List.map_cons, List.filter_cons]
      by_cases hkey : id = e.1
      · rw [List.kerase_cons_eq hkey, if_neg (by simp [he, hkey]), eq_comm, List.filter_eq_self]
        intro r hr
        obtain ⟨f, hf, rfl⟩ := List.mem_map.mp hr
        have hne : f.1 ≠ e.1 := fun heq => hnot (heq ▸ List.mem_keys_of_mem hf)
        simpa [hrest f hf, hkey] using hne
      · rw [List.kerase_cons_ne hkey, List.map_cons, ih hnodup hrest,
          if_pos (by simpa [he] using fun h => hkey h.symm)]

theorem entries_id (hid : ∀ id r, h.get id = some r → r.id = id) :
    ∀ e ∈ h.sessions.entries, e.2.id = e.1 := by
  rintro ⟨id, r⟩ he
  exact hid id r (AList.mem_lookup_iff.mpr he)

/-- A registration replaces what stands under its id. -/
theorem registered_register (hid : ∀ id r, h.get id = some r → r.id = id) (r : SessionRef) :
    (h.register r).registered = r :: h.registered.filter (·.id ≠ r.id) := by
  unfold Hub.registered Hub.register
  rw [AList.entries_insert, List.map_cons, map_snd_kerase h.sessions.nodupKeys (entries_id hid)]

theorem registered_unregister_sublist (h : Hub) (id : String) :
    (h.unregister id).registered.Sublist h.registered := by
  unfold Hub.registered Hub.unregister
  cases hs : h.sessions.lookup id with
  | none => exact List.Sublist.refl _
  | some s =>
      have herase : ((h.sessions.erase id).entries.map Sigma.snd).Sublist
          (h.sessions.entries.map Sigma.snd) :=
        (List.kerase_sublist id h.sessions.entries).map Sigma.snd
      cases hu : h.byUser.lookup s.userID with
      | none => simpa only [hu] using herase
      | some user => simpa only [hu] using herase

theorem perUser_unregister (h : Hub) (id : String) : (h.unregister id).perUser = h.perUser := by
  unfold Hub.unregister
  cases h.sessions.lookup id with
  | none => rfl
  | some s => cases hu : h.byUser.lookup s.userID <;> simp only [hu]

/-- A registration gives its owner one session more than the others it leaves. -/
theorem sessionsOf_register_self (hid : ∀ id r, h.get id = some r → r.id = id) (r : SessionRef) :
    ((h.register r).sessionsOf r.userID).length = (h.othersOf r).length + 1 := by
  rw [Hub.sessionsOf, registered_register hid, List.filter_cons, if_pos (by simp),
    List.length_cons, Hub.othersOf, Hub.sessionsOf, List.filter_filter, List.filter_filter]
  simp only [Bool.and_comm]

theorem sessionsOf_register_other (hid : ∀ id r, h.get id = some r → r.id = id) {r : SessionRef}
    {userID : ℤ} (hne : userID ≠ r.userID) :
    ((h.register r).sessionsOf userID).length ≤ (h.sessionsOf userID).length := by
  rw [Hub.sessionsOf, registered_register hid, List.filter_cons,
    if_neg (by simpa using hne.symm)]
  exact (List.filter_sublist.filter _).length_le

end

/-- What a section does to the hub. -/
theorem Took.hub {cfg : ServerConfig} {s u : Server} {th : Thread} {next : List Thread}
    (h : Took cfg s th u next) :
    (∃ userID r, th = .register userID r ∧ u.hub = s.hub.register r) ∨
      (∀ userID r, th ≠ .register userID r) ∧
        (u.hub = s.hub ∨ ∃ id, u.hub = s.hub.unregister id) := by
  cases h with
  | register userID r => exact .inl ⟨userID, r, rfl, rfl⟩
  | quit hquit =>
      refine .inr ⟨?_, .inl rfl⟩
      rintro userID r rfl
      simp [Thread.quits] at hquit
  | snapshot userID r => exact .inr ⟨by simp, .inl (sendSnapshot_same cfg s userID r).1⟩
  | replay userID r => exact .inr ⟨by simp, .inl (sendSnapshot_same cfg s userID r).1⟩
  | reply userID r => exact .inr ⟨by simp, .inl (sendSnapshot_same cfg s userID r).1⟩
  | detach ht =>
      refine .inr ⟨?_, .inl rfl⟩
      rcases ht with rfl | rfl <;> simp
  | killSession r => exact .inr ⟨by simp, .inl (killPty_hub cfg s r)⟩
  | unregister r => exact .inr ⟨by simp, .inr ⟨r.id, rfl⟩⟩
  | wait => exact .inr ⟨by simp, .inr ⟨_, rfl⟩⟩
  | finish r => exact .inr ⟨by simp, .inl (killPty_hub cfg _ r)⟩
  | append r data => exact .inr ⟨by simp, .inl (appendOutput_same cfg s r data).1⟩
  | broadcast ht => exact .inr ⟨by simp, .inl (broadcast_same ht).1⟩
  | _ => exact .inr ⟨by simp, .inl rfl⟩

/-- A step registers the session of a caller, or it leaves the hub with fewer. -/
theorem serverStep_hub {cfg : ServerConfig} {s t : Server} {a : ServerAction}
    (h : serverStep cfg s a = some t) :
    (∃ userID r env, a = .advance (.register userID r) env ∧ t.hub = s.hub.register r) ∨
      RegistersWithRoom cfg s a ∧
        (t.hub = s.hub ∨ (∃ id, t.hub = s.hub.unregister id) ∨ t.hub = newHub cfg.perUser) := by
  cases a with
  | call th =>
      simp only [serverStep, Option.ite_none_right_eq_some, Option.some.injEq] at h
      exact .inr ⟨trivial, .inl (h.2 ▸ rfl)⟩
  | advance th env =>
      simp only [serverStep, Option.ite_none_right_eq_some, Option.map_eq_some_iff] at h
      obtain ⟨-, out, hout, rfl⟩ := h
      obtain ⟨userID, r, rfl, hhub⟩ | ⟨hth, hhub⟩ := (took_of_sectionOf hout).hub
      · exact .inl ⟨userID, r, env, rfl, hhub⟩
      · refine .inr ⟨?_, hhub.imp_right .inl⟩
        unfold RegistersWithRoom
        split
        · rename_i userID r _ heq
          obtain ⟨rfl, -⟩ := ServerAction.advance.inj heq
          exact absurd rfl (hth userID r)
        · trivial
  | exit r =>
      simp only [serverStep, Option.ite_none_right_eq_some, Option.some.injEq] at h
      exact .inr ⟨trivial, .inl (h.2 ▸ rfl)⟩
  | restart =>
      simp only [serverStep, Option.some.injEq] at h
      exact .inr ⟨trivial, .inr (.inr (h ▸ rfl))⟩

theorem serverStep_keyed {cfg : ServerConfig} {s t : Server} {a : ServerAction}
    (hs : s.Keyed cfg) (h : serverStep cfg s a = some t) : t.Keyed cfg := by
  obtain ⟨userID, r, env, -, hhub⟩ | ⟨-, hhub | ⟨id, hhub⟩ | hhub⟩ := serverStep_hub h
  · refine ⟨?_, by rw [hhub]; exact hs.perUser_eq⟩
    intro id q hq
    rw [hhub, get_register] at hq
    split_ifs at hq with hid
    · rw [← Option.some.inj hq, hid]
    · exact hs.id_eq id q hq
  · exact ⟨by rw [hhub]; exact hs.id_eq, by rw [hhub]; exact hs.perUser_eq⟩
  · refine ⟨?_, by rw [hhub, perUser_unregister]; exact hs.perUser_eq⟩
    intro id' q hq
    rw [hhub, get_unregister] at hq
    split_ifs at hq
    exact hs.id_eq id' q hq
  · exact ⟨by rw [hhub]; simp, by rw [hhub]; rfl⟩

/-- A step keeps the cap exactly when a registration finds room. -/
theorem serverStep_withinCap_iff {cfg : ServerConfig} {s t : Server} {a : ServerAction}
    (hs : s.Keyed cfg) (hcap : s.WithinCap cfg) (h : serverStep cfg s a = some t) :
    t.WithinCap cfg ↔ RegistersWithRoom cfg s a := by
  obtain ⟨userID, r, env, rfl, hhub⟩ | ⟨hroom, hhub⟩ := serverStep_hub h
  · have hself := sessionsOf_register_self hs.id_eq r
    have hroom : RegistersWithRoom cfg s (.advance (.register userID r) env) ↔
        (s.hub.othersOf r).length < cfg.maxPerUser := Iff.rfl
    rw [hroom]
    constructor
    · intro ht
      have hle := ht r.userID
      rw [hhub, hself] at hle
      omega
    · intro hlt u
      rw [hhub]
      by_cases hu : u = r.userID
      · rw [hu, hself]
        omega
      · exact (sessionsOf_register_other hs.id_eq hu).trans (hcap u)
  · refine ⟨fun _ => hroom, fun _ u => ?_⟩
    have hle : (t.hub.sessionsOf u).length ≤ (s.hub.sessionsOf u).length ∨
        t.hub.sessionsOf u = [] := by
      rcases hhub with hhub | ⟨id, hhub⟩ | hhub
      · exact .inl (by rw [hhub])
      · rw [hhub]
        exact .inl ((registered_unregister_sublist s.hub id).filter _).length_le
      · rw [hhub]
        exact .inr rfl
    rcases hle with hle | hnil
    · exact hle.trans (hcap u)
    · simp [hnil]

/-- The cap holds in every state of a run exactly when every registration still
finds room, over any files on disk and any interleaving. -/
theorem session_cap_iff (cfg : ServerConfig) (dumps : List Char → Option (List OutByte))
    (actions : List ServerAction) :
    Along (serverStep cfg) (Server.WithinCap cfg) (Server.init cfg dumps) actions ↔
      Guarded (serverStep cfg) (RegistersWithRoom cfg) (Server.init cfg dumps) actions := by
  refine along_iff_guarded (I := fun s : Server => s.Keyed cfg ∧ s.WithinCap cfg)
    (fun s hs => hs.2)
    ?_ ?_ ⟨init_keyed cfg dumps, ?_⟩
  · intro s a t hs hroom ht
    exact ⟨serverStep_keyed hs.1 ht, (serverStep_withinCap_iff hs.1 hs.2 ht).mpr hroom⟩
  · intro s a t hs hroom ht hcap
    exact hroom ((serverStep_withinCap_iff hs.1 hs.2 ht).mp hcap)
  · intro u
    simp [Server.init, Hub.sessionsOf, Hub.registered, newHub]

/-- One session for each user. -/
def soleConfig : ServerConfig := ⟨"/tmp", 4096, 1⟩

/-- Two requests of user 1 pass the check before either has registered its
session. -/
def twoCreates : List ServerAction :=
  [.call (.create 1 "a"), .call (.create 1 "b"), .advance (.create 1 "a") (.newID "x"),
    .advance (.create 1 "b") (.newID "y"), .advance (.start 1 "a") .ok,
    .advance (.start 1 "b") .ok, .advance (.register 1 ⟨0, "a", 1⟩) .ok,
    .advance (.register 1 ⟨1, "b", 1⟩) .ok]

theorem cap_passed_by_two_creates :
    ¬ ∀ (cfg : ServerConfig) (dumps : List Char → Option (List OutByte))
      (actions : List ServerAction),
      Along (serverStep cfg) (Server.WithinCap cfg) (Server.init cfg dumps) actions := by
  intro h
  have hlen : (run (serverStep soleConfig) (Server.init soleConfig fun _ => none)
      twoCreates).map (fun t => (t.hub.sessionsOf 1).length) = some 2 := by
    decide
  obtain ⟨t, ht, hlen⟩ := Option.map_eq_some_iff.mp hlen
  have hcap := (h soleConfig (fun _ => none) twoCreates).last ht 1
  rw [hlen] at hcap
  exact absurd hcap (by decide)

end GoSite.Terminal
