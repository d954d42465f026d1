import GoSite.GuardedRuns
import GoSite.PtySession

/-!
# The dump file of a killed terminal

Three goroutines touch a started session. `readLoop` looks at `closeCh` at the top
of its loop, waits in `master.Read` and appends what it gets. `waitLoop` waits for
the shell, calls the exit callback and ends with `Kill`. Any number of `Hub.Kill`
calls run `Kill` as well, and `closeOnce` lets its body run once. Each locked section
is one step. The removal of the dump is the last section of that body, and nothing
orders it with the append of bytes that were read before. No other session of the
same id is there.
-/
namespace GoSite.Terminal
open GuardedRuns

variable {β : Type*}

/-- Where `readLoop` stands. -/
inductive ReadPhase (β : Type*) where
  /-- At the `select` on `closeCh`. -/
  | checking
  /-- Before `master.Read`. -/
  | calling
  /-- In `master.Read`. -/
  | reading
  /-- Before `bufMu`, with the bytes of a read and whether it returned an error too. -/
  | got (chunk : PtyRead β) (err : Bool)
  /-- At the `select` that hands the chunk to `fanoutLoop`. -/
  | offering (err : Bool)
  | ended

/-- Where the body of `Kill` stands. -/
inductive KillPhase where
  | idle
  /-- `closeCh` is closed. -/
  | closing
  /-- `closed` is set and the master is taken out of the session. -/
  | marked
  /-- The process group has been killed. -/
  | killed
  /-- The master is closed. -/
  | removing
  | done
  deriving Repr, DecidableEq

/-- Where `waitLoop` stands. -/
inductive WaitPhase where
  /-- In `cmd.Wait`. -/
  | waiting
  /-- The shell has ended. -/
  | exited
  /-- `doneCh` is closed and the exit callback has returned. -/
  | told
  /-- The clients have got their exit frame, `Kill` is called. -/
  | killing
  | ended
  deriving Repr, DecidableEq

/-- What the hub's registry holds for the session. `Create` registers it after
`Start`, so the exit callback can come first. -/
inductive Registration where
  | pending
  | registered
  | gone
  deriving Repr, DecidableEq

/-- `unregister`: an id that is not registered is passed over. -/
def Registration.unregister : Registration → Registration
  | .registered => .gone
  | r => r

/-- A session, its shell and its goroutines. `callers` counts the `Hub.Kill` calls that are
inside `Kill`. -/
structure StartedSession (β : Type*) where
  session : PtySession β
  alive : Bool
  closeCh : Bool
  closed : Bool
  masterOpen : Bool
  registration : Registration
  kill : KillPhase
  reader : ReadPhase β
  waiter : WaitPhase
  callers : ℕ

/-- A session right after `Start`, over the dump that lies at its path. -/
def StartedSession.start (id : String) (userID dumpMax : ℤ) (dump : Option (List β)) :
    StartedSession β where
  session := createSession id userID dumpMax dump
  alive := true
  closeCh := false
  closed := false
  masterOpen := true
  registration := .pending
  kill := .idle
  reader := .checking
  waiter := .waiting
  callers := 0

/-- One step of a goroutine or of the shell. -/
inductive SessionAction (β : Type*) where
  /-- The shell ends by itself. -/
  | exit
  /-- `Create` registers the session. -/
  | register
  | check
  | call
  /-- `master.Read` returns. -/
  | read (chunk : Option (PtyRead β)) (err : Bool)
  | append
  /-- `stop` is the `closeCh` case of the second `select`. -/
  | offer (stop : Bool)
  /-- `Hub.Kill` finds the session and calls `Kill`. -/
  | hubKill
  /-- A `Kill` call is the first to pass `closeOnce`. -/
  | once
  /-- The body of `Kill` takes its next section. -/
  | advance
  /-- A `Hub.Kill` call comes back from `Kill` and unregisters the session. -/
  | leave
  /-- `cmd.Wait` returns. -/
  | wait
  | callback
  | frames
  /-- `waitLoop` comes back from `Kill`. -/
  | finish

/-- The next section of the body of `Kill`. -/
def StartedSession.advanceKill (s : StartedSession β) : Option (StartedSession β) :=
  match s.kill with
  | .idle | .done => none
  | .closing => some { s with kill := .marked, closed := true }
  | .marked => some { s with kill := .killed, alive := false }
  | .killed => some { s with kill := .removing, masterOpen := false }
  | .removing =>
      some { s with
        kill := .done
        session := { s.session with rolling := s.session.rolling.remove } }

/-- The next step of `readLoop`. A read that is under way may still return bytes when
the master is closed meanwhile, one that begins later fails. -/
def StartedSession.readStep (s : StartedSession β) (a : SessionAction β) :
    Option (StartedSession β) :=
  match s.reader, a with
  | .checking, .check => some { s with reader := if s.closeCh then .ended else .calling }
  | .calling, .call => some { s with reader := if s.masterOpen then .reading else .ended }
  | .reading, .read (some chunk) err => some { s with reader := .got chunk err }
  | .reading, .read none err => some { s with reader := if err then .ended else .checking }
  | .got chunk err, .append =>
      some { s with session := (s.session.readLoop chunk.data).1, reader := .offering err }
  | .offering err, .offer stop =>
      if stop && !s.closeCh then none
      else some { s with reader := if stop || err then .ended else .checking }
  | _, _ => none

/-- One step of the system. -/
def StartedSession.step (s : StartedSession β) : SessionAction β → Option (StartedSession β)
  | .exit => if s.alive then some { s with alive := false } else none
  | .register =>
      if s.registration = .pending then some { s with registration := .registered } else none
  | .hubKill =>
      if s.registration = .registered then some { s with callers := s.callers + 1 } else none
  | .once =>
      if s.kill = .idle ∧ (0 < s.callers ∨ s.waiter = .killing)
      then some { s with kill := .closing, closeCh := true } else none
  | .advance => s.advanceKill
  | .leave =>
      if s.kill = .done ∧ 0 < s.callers
      then some { s with callers := s.callers - 1, registration := s.registration.unregister }
      else none
  | .wait =>
      if s.waiter = .waiting ∧ s.alive = false then some { s with waiter := .exited } else none
  | .callback =>
      if s.waiter = .exited
      then some { s with waiter := .told, registration := s.registration.unregister } else none
  | .frames => if s.waiter = .told then some { s with waiter := .killing } else none
  | .finish =>
      if s.waiter = .killing ∧ s.kill = .done then some { s with waiter := .ended } else none
  | a => s.readStep a

/-- The dump file of the session. -/
def StartedSession.dump (s : StartedSession β) : Option (List β) := s.session.rolling.contents

/-- The session has finished when both its goroutines have ended. -/
def StartedSession.Finished (s : StartedSession β) : Prop :=
  s.waiter = .ended ∧ match s.reader with
    | .ended => True
    | _ => False

/-- A step that is not an append after the removal. -/
def StartedSession.InTime (s : StartedSession β) : SessionAction β → Prop
  | .append => s.kill ≠ .done
  | _ => True

instance (s : StartedSession β) : Decidable s.Finished := by
  unfold StartedSession.Finished
  cases s.reader <;> infer_instance

instance (s : StartedSession β) (a : SessionAction β) : Decidable (s.InTime a) := by
  unfold StartedSession.InTime
  cases a <;> infer_instance

/-- What a step does to the dump file and to the body of `Kill`. -/
inductive DumpEffect (s t : StartedSession β) : SessionAction β → Prop where
  | appended (hdump : t.dump ≠ none) (hkill : t.kill = s.kill) : DumpEffect s t .append
  | removed (hkill : s.kill = .removing) (hdone : t.kill = .done) (hdump : t.dump = none) :
      DumpEffect s t .advance
  | kept (a : SessionAction β) (hin : s.InTime a) (hdump : t.dump = s.dump)
      (hkill : t.kill = .done ↔ s.kill = .done) : DumpEffect s t a

theorem append_contents_ne_none (r : RollingFile β) (c : PtyRead β) :
    (r.append c.data).contents ≠ none := by
  unfold RollingFile.append
  rw [if_neg c.ne_nil]
  split <;> simp

theorem dumpEffect_of_readStep {s t : StartedSession β} {a : SessionAction β}
    (h : s.readStep a = some t) : DumpEffect s t a := by
  unfold StartedSession.readStep at h
  split at h
  · cases h
    exact .kept _ trivial rfl Iff.rfl
  · cases h
    exact .kept _ trivial rfl Iff.rfl
  · cases h
    exact .kept _ trivial rfl Iff.rfl
  · cases h
    exact .kept _ trivial rfl Iff.rfl
  · cases h
    exact .appended (append_contents_ne_none _ _) rfl
  · split at h
    · cases h
    · cases h
      exact .kept _ trivial rfl Iff.rfl
  · cases h

theorem dumpEffect_of_advanceKill {s t : StartedSession β} (h : s.advanceKill = some t) :
    DumpEffect s t .advance := by
  unfold StartedSession.advanceKill at h
  cases hkill : s.kill <;> simp only [hkill, reduceCtorEq, Option.some.injEq] at h <;> subst t
  · exact .kept _ trivial rfl (by simp [hkill])
  · exact .kept _ trivial rfl (by simp [hkill])
  · exact .kept _ trivial rfl (by simp [hkill])
  · exact .removed hkill rfl rfl

/-- Only an append puts a dump at the path, and only the end of `Kill` takes it away. -/
theorem dumpEffect_of_step {s t : StartedSession β} {a : SessionAction β}
    (h : s.step a = some t) : DumpEffect s t a := by
  cases a with
  | check | call | read | append | offer => exact dumpEffect_of_readStep h
  | advance => exact dumpEffect_of_advanceKill h
  | once =>
      simp only [StartedSession.step, Option.ite_none_right_eq_some, Option.some.injEq] at h
      obtain ⟨⟨hidle, -⟩, rfl⟩ := h
      exact .kept _ trivial rfl (by simp [hidle])
  | exit | register | hubKill | leave | wait | callback | frames | finish =>
      simp only [StartedSession.step, Option.ite_none_right_eq_some, Option.some.injEq] at h
      obtain ⟨-, rfl⟩ := h
      exact .kept _ trivial rfl Iff.rfl

/-- `waitLoop` ends only when `Kill` has returned. -/
theorem waiter_of_step {s t : StartedSession β} {a : SessionAction β} (h : s.step a = some t)
    (hw : t.waiter = .ended) : s.waiter = .ended ∨ s.kill = .done := by
  cases a with
  | check | call | read | append | offer =>
      left
      simp only [StartedSession.step, StartedSession.readStep] at h
      grind
  | advance =>
      left
      simp only [StartedSession.step, StartedSession.advanceKill] at h
      grind
  | once | exit | register | hubKill | leave | wait | callback | frames | finish =>
      simp only [StartedSession.step, Option.ite_none_right_eq_some, Option.some.injEq] at h
      obtain ⟨hen, rfl⟩ := h
      simp_all

/-- After the removal no step takes a dump away again. -/
theorem dump_stays {s t : StartedSession β} {actions : List (SessionAction β)}
    (hkill : s.kill = .done) (hdump : s.dump ≠ none)
    (hrun : run StartedSession.step s actions = some t) : t.dump ≠ none := by
  induction actions generalizing s with
  | nil =>
      cases hrun
      exact hdump
  | cons a actions ih =>
      obtain ⟨u, hu, hrest⟩ := Option.bind_eq_some_iff.mp hrun
      cases dumpEffect_of_step hu with
      | appended hd hk => exact ih (hk.trans hkill) hd hrest
      | removed hk => rw [hkill] at hk; cases hk
      | kept _ _ hd hk => exact ih (hk.mpr hkill) (hd ▸ hdump) hrest

/-- From the removal on, the dump stays away exactly when nothing is appended. -/
theorem dump_none_iff_of_done {s t : StartedSession β} {actions : List (SessionAction β)}
    (hkill : s.kill = .done) (hdump : s.dump = none)
    (hrun : run StartedSession.step s actions = some t) :
    t.dump = none ↔ Guarded StartedSession.step StartedSession.InTime s actions := by
  induction actions generalizing s with
  | nil =>
      cases hrun
      exact iff_of_true hdump (guarded_nil _ _ _)
  | cons a actions ih =>
      obtain ⟨u, hu, hrest⟩ := Option.bind_eq_some_iff.mp hrun
      cases dumpEffect_of_step hu with
      | appended hd hk =>
          refine iff_of_false (dump_stays (hk.trans hkill) hd hrest) ?_
          intro hg
          exact (hg u hu).1 hkill
      | removed hk => rw [hkill] at hk; cases hk
      | kept _ hin hd hk =>
          rw [ih (hk.mpr hkill) (hd.trans hdump) hrest, guarded_cons]
          constructor
          · intro hg v hv
            cases hu.symm.trans hv
            exact ⟨hin, hg⟩
          · intro hg
            exact (hg u hu).2

/-- A run that reaches the end of `Kill` leaves no dump exactly when no append comes after
the removal. -/
theorem dump_none_iff_of_run {s t : StartedSession β} {actions : List (SessionAction β)}
    (hkill : s.kill ≠ .done) (hdone : t.kill = .done)
    (hrun : run StartedSession.step s actions = some t) :
    t.dump = none ↔ Guarded StartedSession.step StartedSession.InTime s actions := by
  induction actions generalizing s with
  | nil =>
      cases hrun
      exact absurd hdone hkill
  | cons a actions ih =>
      obtain ⟨u, hu, hrest⟩ := Option.bind_eq_some_iff.mp hrun
      have hcons : (∀ v, s.step a = some v → s.InTime a) →
          (Guarded StartedSession.step StartedSession.InTime u actions ↔
            Guarded StartedSession.step StartedSession.InTime s (a :: actions)) := by
        intro hin
        constructor
        · intro hg v hv
          cases hu.symm.trans hv
          exact ⟨hin u hu, hg⟩
        · intro hg
          exact (hg u hu).2
      cases dumpEffect_of_step hu with
      | appended _ hk => rw [ih (hk ▸ hkill) hrest, hcons (fun _ _ => hkill)]
      | removed _ hd hn => rw [dump_none_iff_of_done hd hn hrest, hcons (fun _ _ => trivial)]
      | kept _ hin _ hk => rw [ih (mt hk.mp hkill) hrest, hcons (fun _ _ => hin)]

/-- In every run `waitLoop` has ended only after the end of `Kill`. -/
theorem done_of_waiter_ended {s t : StartedSession β} {actions : List (SessionAction β)}
    (hs : s.waiter = .ended → s.kill = .done)
    (hrun : run StartedSession.step s actions = some t) (ht : t.waiter = .ended) :
    t.kill = .done := by
  induction actions generalizing s with
  | nil =>
      cases hrun
      exact hs ht
  | cons a actions ih =>
      obtain ⟨u, hu, hrest⟩ := Option.bind_eq_some_iff.mp hrun
      refine ih ?_ hrest
      intro hw
      have hdone : s.kill = .done := (waiter_of_step hu hw).elim hs id
      cases dumpEffect_of_step hu with
      | appended _ hk => exact hk.trans hdone
      | removed _ hd => exact hd
      | kept _ _ _ hk => exact hk.mpr hdone

/-- A finished session has no dump exactly when no read was appended after the removal:
for every schedule of its goroutines, whatever lay at the path when it started. -/
theorem finished_dump_none_iff (id : String) (userID dumpMax : ℤ) (dump : Option (List β))
    (actions : List (SessionAction β)) {t : StartedSession β}
    (hrun : run StartedSession.step (.start id userID dumpMax dump) actions = some t)
    (hfinished : t.Finished) :
    t.dump = none ↔
      Guarded StartedSession.step StartedSession.InTime (.start id userID dumpMax dump)
        actions := by
  have hstart : (StartedSession.start id userID dumpMax dump).kill ≠ .done := by
    simp [StartedSession.start]
  have hdone : t.kill = .done := by
    refine done_of_waiter_ended ?_ hrun hfinished.1
    intro hw
    cases hw
  exact dump_none_iff_of_run hstart hdone hrun

/-- A read of one byte. -/
def PtyRead.byte (b : β) : PtyRead β := ⟨[b], by simp, by simp⟩

/-- A session is killed while its read loop waits in `master.Read`. -/
def quietKill : List (SessionAction UInt8) :=
  [.register, .check, .call, .read (some (PtyRead.byte 97)) false, .append, .offer false, .check,
    .call, .hubKill, .once, .advance, .advance, .advance, .read none true, .advance, .leave, .wait,
    .callback, .frames, .finish]

theorem quietKill_leaves_no_dump :
    ∃ t, run StartedSession.step (.start "s" 1 4096 none) quietKill = some t ∧ t.Finished ∧
      (t.dump = none ↔
        Guarded StartedSession.step StartedSession.InTime (.start "s" 1 4096 none) quietKill) ∧
      t.dump = none := by
  refine ⟨_, rfl, ?_, ?_, rfl⟩
  · decide
  · exact finished_dump_none_iff "s" 1 4096 none quietKill rfl (by decide)

/-- The same session, killed while its read loop holds a byte it has not appended yet. -/
def lateAppend : List (SessionAction UInt8) :=
  [.register, .check, .call, .hubKill, .read (some (PtyRead.byte 97)) false, .once, .advance,
    .advance, .advance, .advance, .leave, .wait, .callback, .frames, .append, .offer true, .finish]

/-- The byte is in a dump that the killed session leaves behind, and the next session of the id
starts with it. -/
theorem lateAppend_leaves_dump :
    ∃ t, run StartedSession.step (.start "s" 1 4096 none) lateAppend = some t ∧ t.Finished ∧
      t.dump = some [97] ∧
      (StartedSession.start "s" 1 4096 t.dump).session.snapshot.data = [97] := by
  refine ⟨_, rfl, ?_, rfl, rfl⟩
  decide

end GoSite.Terminal
