import Mathlib

/-!
# The registry of the terminal hub

The hub keeps every session twice: in one map by session id, and in one map of
maps by owner and id. `register` and `unregister` write both maps under the
hub's lock. Both go by the id alone: a registration replaces whatever is
registered under the id, a removal takes away whatever is.
-/
namespace GoSite.Terminal

/-- A pointer to a `PtySession`: its address and the two fields that never
change. Two sessions may share an id, but not an address. -/
structure SessionRef where
  addr : ℕ
  id : String
  userID : ℤ
  deriving Repr, DecidableEq

/-- The maps of a `Hub` and its per-user cap. -/
structure Hub where
  sessions : AList fun _ : String => SessionRef
  byUser : AList fun _ : ℤ => AList fun _ : String => SessionRef
  perUser : ℕ

/-- `NewHub`. -/
def newHub (perUser : ℤ) : Hub := ⟨∅, ∅, if perUser ≤ 0 then 8 else perUser.toNat⟩

/-- `Get`. -/
def Hub.get (h : Hub) (id : String) : Option SessionRef := h.sessions.lookup id

/-- The check `Create` begins with. -/
def Hub.capReached (h : Hub) (userID : ℤ) : Bool :=
  match h.byUser.lookup userID with
  | none => false
  | some user => user.keys.length ≥ h.perUser

def Hub.register (h : Hub) (s : SessionRef) : Hub :=
  let user := (h.byUser.lookup s.userID).getD ∅
  { h with
    sessions := h.sessions.insert s.id s
    byUser := h.byUser.insert s.userID (user.insert s.id s) }

def Hub.unregister (h : Hub) (id : String) : Hub :=
  match h.sessions.lookup id with
  | none => h
  | some s =>
      let sessions := h.sessions.erase id
      match h.byUser.lookup s.userID with
      | none => { h with sessions := sessions }
      | some user =>
          let user := user.erase id
          let byUser :=
            if user.keys.length = 0 then h.byUser.erase s.userID
            else h.byUser.insert s.userID user
          { h with sessions := sessions, byUser := byUser }

/-- The entry of the per-user index. -/
def Hub.indexed (h : Hub) (userID : ℤ) (id : String) : Option SessionRef :=
  (h.byUser.lookup userID).bind fun user => user.lookup id

/-- The registered sessions. -/
def Hub.registered (h : Hub) : List SessionRef := h.sessions.entries.map Sigma.snd

@[simp] theorem get_newHub (perUser : ℤ) (id : String) : (newHub perUser).get id = none :=
  AList.lookup_empty _

@[simp] theorem indexed_newHub (perUser userID : ℤ) (id : String) :
    (newHub perUser).indexed userID id = none := by
  simp [Hub.indexed, newHub]

theorem get_register (h : Hub) (s : SessionRef) (id : String) :
    (h.register s).get id = if id = s.id then some s else h.get id := by
  unfold Hub.get Hub.register
  split_ifs with hid
  · rw [hid, AList.lookup_insert]
  · rw [AList.lookup_insert_ne hid]

theorem indexed_register (h : Hub) (s : SessionRef) (userID : ℤ) (id : String) :
    (h.register s).indexed userID id =
      if userID = s.userID ∧ id = s.id then some s else h.indexed userID id := by
  unfold Hub.indexed Hub.register
  by_cases hu : userID = s.userID
  · subst hu
    rw [AList.lookup_insert, Option.bind_some]
    by_cases hid : id = s.id
    · rw [hid, AList.lookup_insert, if_pos ⟨rfl, rfl⟩]
    · rw [AList.lookup_insert_ne hid, if_neg (fun h => hid h.2)]
      cases h.byUser.lookup s.userID with
      | none => exact AList.lookup_empty _
      | some user => rfl
  · rw [AList.lookup_insert_ne hu, if_neg (fun h => hu h.1)]

theorem get_unregister (h : Hub) (id id' : String) :
    (h.unregister id).get id' = if id' = id then none else h.get id' := by
  have herase : (h.sessions.erase id).lookup id' =
      if id' = id then none else h.sessions.lookup id' := by
    split_ifs with hid
    · rw [hid, AList.lookup_erase]
    · rw [AList.lookup_erase_ne hid]
  unfold Hub.get Hub.unregister
  cases hs : h.sessions.lookup id with
  | none =>
      split_ifs with hid
      · rw [hid, hs]
      · rfl
  | some s =>
      cases hu : h.byUser.lookup s.userID with
      | none =>
          simp only [hu]
          exact herase
      | some user =>
          simp only [hu]
          exact herase

/-- A removal empties the entry of the owner of the session that the id stands
for, and no other. -/
theorem indexed_unregister (h : Hub) (id : String) (userID : ℤ) (id' : String) :
    (h.unregister id).indexed userID id' =
      if id' = id ∧ (h.get id).map SessionRef.userID = some userID then none
      else h.indexed userID id' := by
  unfold Hub.indexed Hub.get Hub.unregister
  cases hs : h.sessions.lookup id with
  | none => simp
  | some s =>
      cases huser : h.byUser.lookup s.userID with
      | none =>
          simp only [huser, Option.map_some, Option.some.injEq]
          by_cases hu : s.userID = userID
          · subst hu
            simp [huser]
          · simp [hu]
      | some user =>
          simp only [huser, Option.map_some, Option.some.injEq]
          by_cases hu : s.userID = userID
          · subst hu
            have herase : (user.erase id).lookup id' =
                if id' = id then none else user.lookup id' := by
              split_ifs with hid
              · rw [hid, AList.lookup_erase]
              · rw [AList.lookup_erase_ne hid]
            have hkept : ((if (user.erase id).keys.length = 0 then h.byUser.erase s.userID
                else h.byUser.insert s.userID (user.erase id)).lookup s.userID).bind
                  (fun user => user.lookup id') = (user.erase id).lookup id' := by
              split_ifs with hempty
              · rw [AList.lookup_erase, Option.bind_none, eq_comm, AList.lookup_eq_none,
                  AList.mem_keys, List.length_eq_zero_iff.mp hempty]
                exact List.not_mem_nil
              · rw [AList.lookup_insert, Option.bind_some]
            simp only [hkept, herase, huser, Option.bind_some, and_true]
          · have hne : userID ≠ s.userID := fun h => hu h.symm
            simp only [hu, and_false, if_false]
            split_ifs with hempty
            · rw [AList.lookup_erase_ne hne]
            · rw [AList.lookup_insert_ne hne]

theorem mem_registered {h : Hub} {s : SessionRef} :
    s ∈ h.registered ↔ ∃ id, h.get id = some s := by
  unfold Hub.registered Hub.get
  simp only [List.mem_map, Sigma.exists]
  constructor
  · rintro ⟨id, t, ht, rfl⟩
    exact ⟨id, AList.mem_lookup_iff.mpr ht⟩
  · rintro ⟨id, hs⟩
    exact ⟨id, s, AList.mem_lookup_iff.mp hs, rfl⟩

/-- Both maps hold the same sessions, each under its own id and its owner. -/
structure Hub.Agrees (h : Hub) : Prop where
  id_eq : ∀ id s, h.get id = some s → s.id = id
  indexed_iff : ∀ userID id s,
    h.indexed userID id = some s ↔ h.get id = some s ∧ s.userID = userID

theorem newHub_agrees (perUser : ℤ) : (newHub perUser).Agrees where
  id_eq := by simp
  indexed_iff := by simp

/-- A registration keeps the maps in agreement when it replaces no session of
another user. -/
theorem Hub.Agrees.register {h : Hub} (ha : h.Agrees) (s : SessionRef)
    (hs : ∀ t, h.get s.id = some t → t.userID = s.userID) : (h.register s).Agrees where
  id_eq := by
    intro id t ht
    rw [get_register] at ht
    split_ifs at ht with hid
    · rw [← Option.some.inj ht, hid]
    · exact ha.id_eq id t ht
  indexed_iff := by
    intro userID id t
    rw [indexed_register, get_register]
    by_cases hid : id = s.id
    · by_cases hu : userID = s.userID
      · rw [if_pos ⟨hu, hid⟩, if_pos hid]
        constructor
        · intro h
          exact ⟨h, by rw [← Option.some.inj h, hu]⟩
        · exact fun h => h.1
      · rw [if_neg (fun h => hu h.1), if_pos hid, ha.indexed_iff]
        constructor
        · rintro ⟨hget, hown⟩
          rw [hid] at hget
          exact absurd (hown.symm.trans (hs t hget)) hu
        · rintro ⟨heq, hown⟩
          rw [← Option.some.inj heq] at hown
          exact absurd hown.symm hu
    · rw [if_neg (fun h => hid h.2), if_neg hid, ha.indexed_iff]

theorem Hub.Agrees.unregister {h : Hub} (ha : h.Agrees) (id : String) :
    (h.unregister id).Agrees where
  id_eq := by
    intro id' t ht
    rw [get_unregister] at ht
    split_ifs at ht with hid
    exact ha.id_eq id' t ht
  indexed_iff := by
    intro userID id' t
    rw [indexed_unregister, get_unregister]
    by_cases hid : id' = id
    · subst hid
      rw [if_pos rfl]
      split_ifs with hown
      · simp
      · rw [ha.indexed_iff]
        constructor
        · rintro ⟨hget, hu⟩
          exact absurd ⟨rfl, by rw [hget, Option.map_some, hu]⟩ hown
        · rintro ⟨hget, -⟩
          exact absurd hget (by simp)
    · rw [if_neg (fun h => hid h.1), if_neg hid, ha.indexed_iff]

end GoSite.Terminal
