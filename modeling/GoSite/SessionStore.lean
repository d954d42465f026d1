import GoSite.GuardedRuns
import GoSite.Interleaving

/-!
# Panel sessions

The store keeps the active sessions in a map in front of the table. A session that
is not in the map is read from the table and put there. Each access of the map or of
the table is one step, and any number of requests are under way.
-/
namespace GoSite.Auth
open GuardedRuns Interleaving

/-- `Session`, and the row it is stored as. -/
structure Session where
  id : String
  userID : ℤ
  createdAt : ℤ
  expiresAt : ℤ
  deriving Repr, DecidableEq

/-- The map, the table, and whether a `Delete` of the id has returned. -/
structure StoreState where
  sessions : String → Option Session
  rows : String → Option Session
  gone : String → Bool

inductive StoreCall where
  | cached (id : String)
  | expired (session : Session)
  | load (id : String)
  | insert (id : String) (session : Session)
  | remove (id : String)
  | forget (id : String)

@[reducible] def StoreCall.Reply : StoreCall → Type
  | .cached _ | .load _ => Option Session
  | .expired _ => Bool
  | .insert _ _ | .remove _ | .forget _ => Unit

/-- The answer at a time. The table drops an expired row when it is read. -/
def StoreState.answer (s : StoreState) (now : ℤ) : (c : StoreCall) → StoreState × c.Reply
  | .cached id => (s, s.sessions id)
  | .expired session => (s, decide (session.expiresAt < now))
  | .load id =>
      match s.rows id with
      | none => (s, none)
      | some rec =>
          if rec.expiresAt < now then ({ s with rows := Function.update s.rows id none }, none)
          else (s, some rec)
  | .insert id session =>
      ({ s with sessions := Function.update s.sessions id (some session) }, ())
  | .remove id => ({ s with rows := Function.update s.rows id none }, ())
  | .forget id =>
      ({ s with
        sessions := Function.update s.sessions id none
        gone := Function.update s.gone id true }, ())

abbrev StoreSteps (α : Type) := Program StoreCall StoreCall.Reply α

abbrev ask (c : StoreCall) : StoreSteps c.Reply := request c

namespace Store

section
variable (persister : Bool)

/-- `Delete`. -/
def delete (id : String) : StoreSteps Unit :=
  if id = "" then return
  else if persister then do
    ask (.remove id)
    ask (.forget id)
  else ask (.forget id)

/-- `Get` with a session from the map. -/
def getCached (id : String) (session : Session) : StoreSteps (Option Session) := do
  if ← ask (.expired session) then
    delete persister id
    return none
  else return some session

/-- `Get` with what it read from the table. -/
def getLoaded (id : String) : Option Session → StoreSteps (Option Session)
  | none => return none
  | some rec => do
      if ← ask (.expired rec) then return none
      else
        ask (.insert id rec)
        return some rec

/-- `Get` after a miss of the map. -/
def getMissed (id : String) : StoreSteps (Option Session) :=
  if ¬ persister then return none
  else do getLoaded id (← ask (.load id))

/-- `Get`. -/
def get (id : String) : StoreSteps (Option Session) :=
  if id = "" then return none
  else do
    match ← ask (.cached id) with
    | some session => getCached persister id session
    | none => getMissed persister id

end

end Store

/-- What a request returned. `late` says whether a `Delete` of the id had returned when
the `Get` began. -/
inductive StoreOutcome where
  | idle
  | got (id : String) (late : Bool) (session : Option Session)
  | deleted (id : String)

inductive StoreRequest where
  | get (id : String)
  | delete (id : String)
  deriving Repr, DecidableEq

def StoreRequest.program (persister : Bool) (gone : String → Bool) :
    StoreRequest → StoreSteps StoreOutcome
  | .get id => do return .got id (gone id) (← Store.get persister id)
  | .delete id => do
      Store.delete persister id
      return .deleted id

abbrev StorePool := Pool StoreState ℕ StoreCall StoreCall.Reply StoreOutcome

inductive StoreAction where
  | begin (n : ℕ) (r : StoreRequest)
  | call (n : ℕ) (now : ℤ)
  deriving Repr, DecidableEq

def storeStep (persister : Bool) (s : StorePool) : StoreAction → Option StorePool
  | .begin n r => s.start n (r.program persister s.shared.gone)
  | .call n now => s.call StoreState.answer n now

/-- No request is under way, and nothing was deleted yet. -/
def quietStore (sessions rows : String → Option Session) : StorePool :=
  ⟨⟨sessions, rows, fun _ => false⟩, fun _ => .done .idle⟩

/-- A `Get` that began after a `Delete` of its id had returned gives no session. -/
def StoreOutcome.Final : StoreOutcome → Prop
  | .got id late session => late = true ∨ id = "" → session = none
  | _ => True

def LogoutFinal (s : StorePool) : Prop := ∀ n o, s.threads n = .done o → o.Final

/-- No row read from the table enters the map once a `Delete` of its id has returned. -/
def InsertsInTime (s : StorePool) : StoreAction → Prop
  | .begin _ _ => True
  | .call n _ =>
      match s.threads n with
      | .call (.insert id _) _ => s.shared.gone id = false
      | _ => True

instance (s : StorePool) (a : StoreAction) : Decidable (InsertsInTime s a) := by
  cases a with
  | begin n r => exact .isTrue trivial
  | call n now =>
      unfold InsertsInTime
      dsimp only
      split <;> infer_instance

/-- What is left of a request. -/
inductive Stage (persister : Bool) (s : StoreState) : StoreSteps StoreOutcome → Prop
  | returned (o : StoreOutcome) : o.Final → Stage persister s (.done o)
  | get (id : String) (late : Bool) : (late = true → s.gone id = true) →
      Stage persister s (Store.get persister id >>= fun r => .done (.got id late r))
  | cached (id : String) (session : Session) : id ≠ "" →
      Stage persister s (Store.getCached persister id session >>= fun r => .done (.got id false r))
  | missed (id : String) (late : Bool) : id ≠ "" → (late = true → s.gone id = true) →
      Stage persister s (Store.getMissed persister id >>= fun r => .done (.got id late r))
  | loaded (id : String) (late : Bool) (rec : Option Session) : id ≠ "" →
      (late = true → rec = none) →
      Stage persister s (Store.getLoaded id rec >>= fun r => .done (.got id late r))
  | insert (id : String) (rec : Session) : id ≠ "" →
      Stage persister s (.call (.insert id rec) fun _ => .done (.got id false (some rec)))
  | delete (id : String) (o : StoreOutcome) : o.Final →
      Stage persister s (Store.delete persister id >>= fun _ => .done o)
  | forget (id : String) (o : StoreOutcome) : o.Final → (persister = true → s.rows id = none) →
      Stage persister s (.call (.forget id) fun _ => .done o)

/-- A deleted session is neither in the map nor in the table. -/
def StoreState.Clean (persister : Bool) (s : StoreState) : Prop :=
  ∀ id, s.gone id = true → s.sessions id = none ∧ (persister = true → s.rows id = none)

section
variable {persister : Bool} {s t : StoreState}

/-- Deleted sessions stay deleted. -/
structure StoreState.Shrinks (s t : StoreState) : Prop where
  gone : ∀ id, s.gone id = true → t.gone id = true
  rows : ∀ id, s.rows id = none → t.rows id = none

theorem StoreState.Shrinks.refl (s : StoreState) : s.Shrinks s := ⟨fun _ h => h, fun _ h => h⟩

theorem Stage.mono {p : StoreSteps StoreOutcome} (h : Stage persister s p) (hst : s.Shrinks t) :
    Stage persister t p := by
  cases h with
  | returned o ho => exact .returned o ho
  | get id late hlate => exact .get id late fun h => hst.gone id (hlate h)
  | cached id session hid => exact .cached id session hid
  | missed id late hid hlate => exact .missed id late hid fun h => hst.gone id (hlate h)
  | loaded id late rec hid hlate => exact .loaded id late rec hid hlate
  | insert id rec hid => exact .insert id rec hid
  | delete id o ho => exact .delete id o ho
  | forget id o ho hrow => exact .forget id o ho fun h => hst.rows id (hrow h)

theorem shrinks_answer (s : StoreState) (now : ℤ) (c : StoreCall) :
    s.Shrinks (s.answer now c).1 := by
  cases c with
  | cached id => exact .refl s
  | expired session => exact .refl s
  | load id =>
      simp only [StoreState.answer]
      split
      · exact .refl s
      · split_ifs
        · refine ⟨fun _ h => h, fun other h => ?_⟩
          by_cases hid : other = id
          · simp [hid]
          · simpa [hid] using h
        · exact .refl s
  | insert id session => exact ⟨fun _ h => h, fun _ h => h⟩
  | remove id =>
      refine ⟨fun _ h => h, fun other h => ?_⟩
      by_cases hid : other = id
      · simp [StoreState.answer, hid]
      · simpa [StoreState.answer, hid] using h
  | forget id =>
      refine ⟨fun other h => ?_, fun _ h => h⟩
      by_cases hid : other = id
      · simp [StoreState.answer, hid]
      · simpa [StoreState.answer, hid] using h

theorem StoreState.Clean.of_same {c : StoreCall} {now : ℤ} (h : s.Clean persister)
    (hgone : (s.answer now c).1.gone = s.gone)
    (hsessions : ∀ id, s.gone id = true → s.sessions id = none →
      (s.answer now c).1.sessions id = none) : (s.answer now c).1.Clean persister := by
  intro id hid
  rw [hgone] at hid
  obtain ⟨hsession, hrow⟩ := h id hid
  exact ⟨hsessions id hid hsession, fun hp => (shrinks_answer s now c).rows id (hrow hp)⟩

/-- Every call but an insertion that comes too late leaves the deleted sessions deleted. -/
theorem StoreState.Clean.answer {c : StoreCall} {now : ℤ} (h : s.Clean persister)
    (hinsert : ∀ id session, c = .insert id session → s.gone id = false)
    (hforget : ∀ id, c = .forget id → persister = true → s.rows id = none) :
    (s.answer now c).1.Clean persister := by
  cases c with
  | cached id => exact h
  | expired session => exact h
  | load id =>
      refine h.of_same ?_ ?_
      · simp only [StoreState.answer]
        split
        · rfl
        · split_ifs <;> rfl
      · intro other _ hnone
        simp only [StoreState.answer]
        split
        · exact hnone
        · split_ifs <;> exact hnone
  | insert id session =>
      refine h.of_same rfl fun other hother hnone => ?_
      have hne : other ≠ id := by
        rintro rfl
        rw [hinsert other session rfl] at hother
        cases hother
      simpa [StoreState.answer, hne] using hnone
  | remove id => exact h.of_same rfl fun _ _ hnone => hnone
  | forget id =>
      intro other hother
      by_cases hid : other = id
      · subst hid
        exact ⟨by simp [StoreState.answer], hforget other rfl⟩
      · have hgone : s.gone other = true := by simpa [StoreState.answer, hid] using hother
        simpa [StoreState.answer, hid] using h other hgone

theorem StoreOutcome.final_got {id : String} {session : Option Session} (hid : id ≠ "") :
    (StoreOutcome.got id false session).Final := by
  rintro (hlate | hempty)
  · cases hlate
  · exact absurd hempty hid

/-- A request that has returned, or that is about to delete. -/
theorem Stage.delete_next {id : String} {o : StoreOutcome} (ho : o.Final) {c : StoreCall}
    {next : c.Reply → StoreSteps StoreOutcome} {now : ℤ}
    (hp : Program.call c next = (Store.delete persister id >>= fun _ => .done o)) :
    Stage persister (s.answer now c).1 (next (s.answer now c).2) ∧
      (∀ id session, c ≠ .insert id session) ∧
        (∀ id, c = .forget id → persister = false) := by
  unfold Store.delete at hp
  split_ifs at hp with hempty hpersister
  · cases hp
  · cases hp
    refine ⟨.forget id o ho fun _ => ?_, nofun, nofun⟩
    simp [StoreState.answer]
  · cases hp
    exact ⟨.returned o ho, nofun, fun _ _ => by simpa using hpersister⟩

/-- One call of a request. -/
theorem Stage.call {c : StoreCall} {next : c.Reply → StoreSteps StoreOutcome} {now : ℤ}
    (h : Stage persister s (.call c next)) (hclean : s.Clean persister)
    (hinsert : ∀ id session, c = .insert id session → s.gone id = false) :
    Stage persister (s.answer now c).1 (next (s.answer now c).2) ∧
      (s.answer now c).1.Clean persister := by
  generalize hp : Program.call c next = p at h
  cases h with
  | returned o ho => cases hp
  | get id late hlate =>
      unfold Store.get at hp
      split_ifs at hp with hid
      · cases hp
      · cases hp
        refine ⟨?_, hclean⟩
        show Stage persister s (_ >>= _)
        cases hcached : s.sessions id with
        | none =>
            simp only [StoreState.answer, hcached]
            exact .missed id late hid hlate
        | some session =>
            have hnow : late = false := by
              cases late with
              | false => rfl
              | true =>
                  rw [(hclean id (hlate rfl)).1] at hcached
                  cases hcached
            subst hnow
            simp only [StoreState.answer, hcached]
            exact .cached id session hid
  | cached id session hid =>
      unfold Store.getCached at hp
      cases hp
      refine ⟨?_, hclean⟩
      by_cases hexpired : session.expiresAt < now
      · simp only [StoreState.answer, hexpired, decide_true]
        show Stage persister s ((Store.delete persister id >>= fun _ => .done none) >>= _)
        rw [bind_assoc]
        exact .delete id _ (StoreOutcome.final_got hid)
      · simp only [StoreState.answer, hexpired, decide_false]
        exact .returned _ (StoreOutcome.final_got hid)
  | missed id late hid hlate =>
      unfold Store.getMissed at hp
      split_ifs at hp with hpersister
      · cases hp
        refine ⟨?_, hclean.answer nofun nofun⟩
        show Stage persister _ (Store.getLoaded id _ >>= _)
        refine .loaded id late _ hid fun htrue => ?_
        have hrow := (hclean id (hlate htrue)).2 hpersister
        simp [StoreState.answer, hrow]
      · cases hp
  | loaded id late rec hid hlate =>
      cases rec with
      | none => cases hp
      | some rec =>
          have hnow : late = false := by
            cases late with
            | false => rfl
            | true => cases hlate rfl
          subst hnow
          cases hp
          refine ⟨?_, hclean⟩
          by_cases hexpired : rec.expiresAt < now
          · simp only [StoreState.answer, hexpired, decide_true]
            exact .returned _ (StoreOutcome.final_got hid)
          · simp only [StoreState.answer, hexpired, decide_false]
            exact .insert id rec hid
  | insert id rec hid =>
      cases hp
      exact ⟨.returned _ (StoreOutcome.final_got hid), hclean.answer hinsert nofun⟩
  | delete id o ho =>
      obtain ⟨hstage, hno, hforget⟩ := Stage.delete_next ho hp
      refine ⟨hstage, hclean.answer (fun id session hc => absurd hc (hno id session)) ?_⟩
      intro other hc hpersister
      rw [hforget other hc] at hpersister
      cases hpersister
  | forget id o ho hrow =>
      cases hp
      refine ⟨.returned o ho, hclean.answer nofun ?_⟩
      rintro other hc
      cases hc
      exact hrow

/-- Every request is at a stage, and deleted sessions are in no place. -/
structure StoreSound (persister : Bool) (s : StorePool) : Prop where
  clean : s.shared.Clean persister
  stages : ∀ n, Stage persister s.shared (s.threads n)

theorem StoreSound.final {s : StorePool} (h : StoreSound persister s) : LogoutFinal s := by
  intro n o hn
  have hstage := h.stages n
  rw [hn] at hstage
  generalize hp : Program.done o = p at hstage
  cases hstage with
  | returned o ho =>
      cases hp
      exact ho
  | get id late hlate =>
      unfold Store.get at hp
      split_ifs at hp with hid
      · cases hp
        exact fun _ => rfl
      · cases hp
  | cached id session hid => cases hp
  | missed id late hid hlate =>
      unfold Store.getMissed at hp
      split_ifs at hp
      · cases hp
      · cases hp
        exact fun _ => rfl
  | loaded id late rec hid hlate =>
      cases rec with
      | none =>
          cases hp
          exact fun _ => rfl
      | some rec => cases hp
  | insert id rec hid => cases hp
  | delete id o ho =>
      unfold Store.delete at hp
      split_ifs at hp
      · cases hp
        exact ho
      · cases hp
      · cases hp
  | forget id o ho hrow => cases hp

theorem storeSound_quiet (sessions rows : String → Option Session) :
    StoreSound persister (quietStore sessions rows) :=
  ⟨fun _ hid => absurd hid Bool.false_ne_true, fun _ => .returned _ trivial⟩

/-- One step of one request. -/
theorem StoreSound.step {s t : StorePool} {a : StoreAction} (h : StoreSound persister s)
    (hgood : InsertsInTime s a) (hst : storeStep persister s a = some t) :
    StoreSound persister t := by
  cases a with
  | begin n r =>
      obtain ⟨-, hshared, hthreads⟩ := Pool.start_eq_some hst
      refine ⟨hshared ▸ h.clean, fun m => ?_⟩
      rw [hshared, hthreads]
      by_cases hm : m = n
      · subst hm
        rw [Function.update_self]
        cases r with
        | get id => exact .get id _ fun hgone => hgone
        | delete id => exact .delete id _ trivial
      · rw [Function.update_of_ne hm]
        exact h.stages m
  | call n now =>
      obtain ⟨c, next, hthread, hshared, hthreads⟩ := Pool.call_eq_some hst
      have hstage := h.stages n
      rw [hthread] at hstage
      have hinsert : ∀ id session, c = .insert id session → s.shared.gone id = false := by
        rintro id session rfl
        simpa [InsertsInTime, hthread] using hgood
      obtain ⟨hnext, hclean⟩ := hstage.call h.clean hinsert
      refine ⟨hshared ▸ hclean, fun m => ?_⟩
      rw [hshared, hthreads]
      by_cases hm : m = n
      · subst hm
        rw [Function.update_self]
        exact hnext
      · rw [Function.update_of_ne hm]
        exact (h.stages m).mono (shrinks_answer _ _ _)

end

/-- Logout is final in every run in which no row enters the map after a `Delete` of
its id has returned. -/
theorem logout_final (persister : Bool) (sessions rows : String → Option Session)
    (actions : List StoreAction)
    (h : Guarded (storeStep persister) InsertsInTime (quietStore sessions rows) actions) :
    Along (storeStep persister) LogoutFinal (quietStore sessions rows) actions :=
  (along_of_guarded (fun _ _ _ hs hgood hst => hs.step hgood hst)
    (storeSound_quiet sessions rows) h).mono fun _ hs => hs.final

/-- A session that does not expire here. -/
def demoSession : Session := ⟨"a1", 1, 0, 100⟩

def demoStore : StorePool :=
  quietStore (fun _ => none) fun id => if id = "a1" then some demoSession else none

/-- A `Get` puts the row into the map, a `Delete` follows, and another `Get`. -/
def logoutRun : List StoreAction :=
  [.begin 0 (.get "a1"), .call 0 1, .call 0 1, .call 0 1, .call 0 1, .begin 1 (.delete "a1"),
    .call 1 2, .call 1 2, .begin 2 (.get "a1"), .call 2 3, .call 2 3]

theorem logout_final_demo :
    Along (storeStep true) LogoutFinal demoStore logoutRun :=
  logout_final true _ _ logoutRun (by decide)

/-- The row is read before the `Delete` and enters the map after it. -/
def revivingRun : List StoreAction :=
  [.begin 0 (.get "a1"), .call 0 1, .call 0 1, .call 0 1, .begin 1 (.delete "a1"), .call 1 2,
    .call 1 2, .call 0 2, .begin 2 (.get "a1"), .call 2 3, .call 2 3]

/-- The session is back in the map, and no later `Delete` is to come. -/
theorem session_survives_logout :
    ¬ ∀ actions, Along (storeStep true) LogoutFinal demoStore actions := by
  intro h
  have hsome : (GuardedRuns.run (storeStep true) demoStore revivingRun).isSome = true := by
    decide
  obtain ⟨s, hs⟩ := Option.isSome_iff_exists.mp hsome
  have hfound : ((GuardedRuns.run (storeStep true) demoStore revivingRun).bind fun s =>
      match s.threads 2 with
      | .done (.got _ late session) => some (late, session)
      | _ => none) = some (true, some demoSession) := by
    decide
  rw [hs, Option.bind_some] at hfound
  have hlast : LogoutFinal s := (h revivingRun).last hs
  cases hthread : s.threads 2 with
  | call c next => simp [hthread] at hfound
  | done o =>
      cases o with
      | got id late session =>
          simp only [hthread, Option.some.injEq, Prod.mk.injEq] at hfound
          obtain ⟨rfl, rfl⟩ := hfound
          cases hlast 2 _ hthread (.inl rfl)
      | idle => simp [hthread] at hfound
      | deleted id => simp [hthread] at hfound

end GoSite.Auth
