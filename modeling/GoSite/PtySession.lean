import GoSite.GuardedRuns
import GoSite.RollingFile

/-!
# Sequence numbers of a terminal session

The read loop appends every PTY read to the dump file and advances two counters
next to it. `endSeq` counts the bytes produced. `firstSeq` is meant to be the
position of the first byte still in the dump, but it follows a rule of its own:
it is moved only when the window would become wider than the cap. A snapshot
returns the whole dump together with the two counters.
-/
namespace GoSite.Terminal
open StreamWindows GuardedRuns

variable {β : Type*}

/-- The part of `SessionConfig` that identifies a session and bounds its dump. -/
structure SessionConfig where
  id : String
  userID : ℤ
  dumpMax : ℤ
  firstSeq : ℕ
  deriving Repr, DecidableEq

/-- The output half of a `PtySession`. -/
structure PtySession (β : Type*) where
  id : String
  userID : ℤ
  rolling : RollingFile β
  firstSeq : ℕ
  endSeq : ℕ

/-- What one PTY read hands to the fan-out goroutine. -/
structure PtyChunk (β : Type*) where
  seq : ℕ
  data : List β
  deriving Repr, DecidableEq

/-- The bytes of one `master.Read` into the 4096-byte buffer with `n > 0`. -/
structure PtyRead (β : Type*) where
  data : List β
  ne_nil : data ≠ []
  length_le : data.length ≤ 4096

/-- `NewPtySession` on a dump path where `dump` lies. -/
def newPtySession (cfg : SessionConfig) (dump : Option (List β)) : PtySession β :=
  let dumpMax := if cfg.dumpMax ≤ 0 then 256 * 1024 else cfg.dumpMax
  { id := cfg.id
    userID := cfg.userID
    rolling := newRollingFile dumpMax.toNat dump
    firstSeq := cfg.firstSeq
    endSeq := cfg.firstSeq }

/-- `Hub.Create` starts the counters at the size of the dump it finds. -/
def restoredFirstSeq (dump : Option (List β)) : ℕ :=
  match dump with
  | none => 0
  | some d => d.length

/-- The session `Hub.Create` builds over the dump at its path. -/
def createSession (id : String) (userID dumpMax : ℤ) (dump : Option (List β)) : PtySession β :=
  newPtySession ⟨id, userID, dumpMax, restoredFirstSeq dump⟩ dump

/-- One round of `readLoop` under `bufMu`: append, advance the end, and move the
start when the window is wider than the cap. -/
def PtySession.readLoop (s : PtySession β) (data : List β) : PtySession β × PtyChunk β :=
  let seq := s.endSeq
  let rolling := s.rolling.append data
  let last := s.endSeq + data.length
  let firstSeq := if last - s.firstSeq > rolling.max then last - rolling.max else s.firstSeq
  ({ s with rolling := rolling, firstSeq := firstSeq, endSeq := last }, ⟨seq, data⟩)

/-- The result of `Snapshot`. -/
structure SessionSnapshot (β : Type*) where
  data : List β
  firstSeq : ℕ
  endSeq : ℕ
  deriving Repr, DecidableEq

def PtySession.snapshot (s : PtySession β) : SessionSnapshot β :=
  ⟨s.rolling.readAll, s.firstSeq, s.endSeq⟩

@[simp] theorem snapshot_data (s : PtySession β) : s.snapshot.data = s.rolling.readAll := rfl
@[simp] theorem snapshot_firstSeq (s : PtySession β) : s.snapshot.firstSeq = s.firstSeq := rfl
@[simp] theorem snapshot_endSeq (s : PtySession β) : s.snapshot.endSeq = s.endSeq := rfl

@[simp] theorem readLoop_rolling (s : PtySession β) (data : List β) :
    (s.readLoop data).1.rolling = s.rolling.append data := rfl

@[simp] theorem readLoop_endSeq (s : PtySession β) (data : List β) :
    (s.readLoop data).1.endSeq = s.endSeq + data.length := rfl

@[simp] theorem readLoop_firstSeq (s : PtySession β) (data : List β) :
    (s.readLoop data).1.firstSeq =
      if s.endSeq + data.length - s.firstSeq > s.rolling.max
      then s.endSeq + data.length - s.rolling.max else s.firstSeq := by
  simp [PtySession.readLoop]

@[simp] theorem readLoop_chunk (s : PtySession β) (data : List β) :
    (s.readLoop data).2 = ⟨s.endSeq, data⟩ := rfl

@[simp] theorem createSession_rolling (id : String) (userID dumpMax : ℤ)
    (dump : Option (List β)) : (createSession id userID dumpMax dump).rolling.contents = dump := by
  simp [createSession, newPtySession]

@[simp] theorem createSession_firstSeq (id : String) (userID dumpMax : ℤ)
    (dump : Option (List β)) :
    (createSession id userID dumpMax dump).firstSeq = restoredFirstSeq dump := rfl

@[simp] theorem createSession_endSeq (id : String) (userID dumpMax : ℤ)
    (dump : Option (List β)) :
    (createSession id userID dumpMax dump).endSeq = restoredFirstSeq dump := rfl

@[simp] theorem restoredFirstSeq_eq (dump : Option (List β)) :
    restoredFirstSeq dump = (dump.getD []).length := by
  cases dump <;> rfl

theorem createSession_readAll (id : String) (userID dumpMax : ℤ) (dump : Option (List β)) :
    (createSession id userID dumpMax dump).rolling.readAll = dump.getD [] := by
  simp [RollingFile.readAll]

/-- A session together with its output stream: position `i` of the stream is the
byte with sequence number `i`, the restored dump being its beginning. -/
structure Recorded (β : Type*) where
  session : PtySession β
  stream : List β

/-- The record of a session as `Hub.Create` starts it. -/
def Recorded.start (id : String) (userID dumpMax : ℤ) (dump : Option (List β)) : Recorded β :=
  ⟨createSession id userID dumpMax dump, dump.getD []⟩

def Recorded.read (r : Recorded β) (c : PtyRead β) : Option (Recorded β) :=
  some ⟨(r.session.readLoop c.data).1, r.stream ++ c.data⟩

/-- The snapshot's bytes are the stream's bytes `firstSeq` to `endSeq`, and
there are as many of them as the two numbers say. -/
def Recorded.Truthful (r : Recorded β) : Prop :=
  let snap := r.session.snapshot
  snap.data = window r.stream snap.firstSeq snap.endSeq ∧
    snap.data.length = snap.endSeq - snap.firstSeq

/-- A read the counters can follow: either the dump does not have to be trimmed,
or what the trim keeps and the read together fill the cap again. -/
def Recorded.KeepsWindow (r : Recorded β) (c : PtyRead β) : Prop :=
  r.session.rolling.size + c.data.length ≤ r.session.rolling.max ∨
    r.session.rolling.max ≤
      min r.session.rolling.size (targetKeep r.session.rolling.max) + c.data.length

/-- The state of a session whose counters are right: the window is the newest
part of the stream, as wide as the cap allows, and the dump holds exactly it. -/
structure Recorded.InStep (r : Recorded β) : Prop where
  endSeq_eq : r.session.endSeq = r.stream.length
  firstSeq_eq : r.session.firstSeq = r.stream.length - r.session.rolling.max
  readAll_eq : r.session.rolling.readAll = newest r.session.rolling.max r.stream

theorem Recorded.InStep.size_eq {r : Recorded β} (h : r.InStep) :
    r.session.rolling.size = min r.session.rolling.max r.stream.length := by
  rw [RollingFile.size, h.readAll_eq, length_newest]

theorem Recorded.InStep.truthful {r : Recorded β} (h : r.InStep) : r.Truthful := by
  unfold Recorded.Truthful
  simp only [snapshot_data, snapshot_firstSeq, snapshot_endSeq]
  rw [h.endSeq_eq, h.firstSeq_eq, h.readAll_eq]
  refine ⟨newest_eq_window _ _, ?_⟩
  rw [length_newest]
  omega

/-- The counters after a read, whether or not the dump can follow them. -/
theorem Recorded.InStep.read_counters {r : Recorded β} (h : r.InStep) (c : PtyRead β) :
    (r.session.readLoop c.data).1.endSeq = (r.stream ++ c.data).length ∧
    (r.session.readLoop c.data).1.firstSeq =
      (r.stream ++ c.data).length - r.session.rolling.max := by
  have hend := h.endSeq_eq
  have hfirst := h.firstSeq_eq
  simp only [readLoop_endSeq, readLoop_firstSeq, List.length_append]
  constructor
  · omega
  · split_ifs <;> omega

/-- The bytes in the dump after a read. -/
theorem Recorded.InStep.read_readAll {r : Recorded β} (h : r.InStep) (c : PtyRead β) :
    (r.session.readLoop c.data).1.rolling.readAll =
      newest (sizeAfter r.session.rolling.max r.session.rolling.size c.data.length)
        (r.stream ++ c.data) := by
  apply readAll_append_newest _ _ _ c.ne_nil
  rw [h.size_eq, h.readAll_eq]
  by_cases hl : r.stream.length ≤ r.session.rolling.max
  · rw [Nat.min_eq_right hl, newest_length_self]
    unfold newest
    rw [Nat.sub_eq_zero_of_le hl, List.drop_zero]
  · rw [Nat.min_eq_left (by omega)]

/-- The dump is as long as the window exactly after a read the counters follow. -/
theorem Recorded.InStep.sizeAfter_eq_iff {r : Recorded β} (h : r.InStep) (c : PtyRead β) :
    sizeAfter r.session.rolling.max r.session.rolling.size c.data.length =
      min r.session.rolling.max (r.stream ++ c.data).length ↔ r.KeepsWindow c := by
  have hs := h.size_eq
  have hk := targetKeep_le r.session.rolling.max
  have hc : 0 < c.data.length := List.length_pos_iff.mpr c.ne_nil
  unfold sizeAfter Recorded.KeepsWindow
  rw [List.length_append]
  split_ifs with htrim <;> omega

theorem Recorded.InStep.read {r t : Recorded β} (h : r.InStep) (c : PtyRead β)
    (hc : r.KeepsWindow c) (ht : r.read c = some t) : t.InStep := by
  simp only [Recorded.read, Option.some.injEq] at ht
  subst t
  obtain ⟨hend, hfirst⟩ := h.read_counters c
  refine ⟨hend, ?_, ?_⟩
  · simpa using hfirst
  · have hsize := (h.sizeAfter_eq_iff c).mpr hc
    have hread := h.read_readAll c
    rw [hsize] at hread
    simp only [readLoop_rolling, append_max] at hread ⊢
    rw [hread]
    by_cases hl : (r.stream ++ c.data).length ≤ r.session.rolling.max
    · rw [Nat.min_eq_right hl, newest_length_self, newest, Nat.sub_eq_zero_of_le hl, List.drop_zero]
    · rw [Nat.min_eq_left (by omega)]

/-- A trim the counters do not follow shows at once: the window is wider than
the dump. -/
theorem Recorded.InStep.not_truthful_read {r t : Recorded β} (h : r.InStep) (c : PtyRead β)
    (hc : ¬ r.KeepsWindow c) (ht : r.read c = some t) : ¬ t.Truthful := by
  simp only [Recorded.read, Option.some.injEq] at ht
  subst t
  obtain ⟨hend, hfirst⟩ := h.read_counters c
  rintro ⟨-, hlen⟩
  simp only [snapshot_data, snapshot_firstSeq, snapshot_endSeq] at hlen
  rw [hend, hfirst, h.read_readAll c, length_newest] at hlen
  have hle := sizeAfter_le_add r.session.rolling.max r.session.rolling.size c.data.length
  have hs := h.size_eq
  rw [List.length_append] at hlen
  refine hc ((h.sizeAfter_eq_iff c).mp ?_)
  rw [List.length_append]
  omega

theorem Recorded.start_inStep (id : String) (userID dumpMax : ℤ) (dump : Option (List β))
    (hd : dump.getD [] = []) : (Recorded.start id userID dumpMax dump).InStep := by
  refine ⟨?_, ?_, ?_⟩
  · simp [Recorded.start, hd]
  · simp [Recorded.start, hd]
  · simp [Recorded.start, createSession_readAll, hd, newest]

/-- Restored bytes are in the dump but not in the window. -/
theorem Recorded.start_truthful_iff (id : String) (userID dumpMax : ℤ)
    (dump : Option (List β)) :
    (Recorded.start id userID dumpMax dump).Truthful ↔ dump.getD [] = [] := by
  constructor
  · rintro ⟨-, hlen⟩
    simpa [Recorded.start, createSession_readAll] using hlen
  · intro hd
    exact (Recorded.start_inStep id userID dumpMax dump hd).truthful

/-- Snapshots are truthful in every state of a session exactly when it started
without restored bytes and no trim loses more than the window does. -/
theorem snapshot_truthful_iff (id : String) (userID dumpMax : ℤ) (dump : Option (List β))
    (reads : List (PtyRead β)) :
    Along Recorded.read Recorded.Truthful (Recorded.start id userID dumpMax dump) reads ↔
      dump.getD [] = [] ∧
        Guarded Recorded.read Recorded.KeepsWindow
          (Recorded.start id userID dumpMax dump) reads := by
  have hrun (hd : dump.getD [] = []) :
      Along Recorded.read Recorded.Truthful (Recorded.start id userID dumpMax dump) reads ↔
        Guarded Recorded.read Recorded.KeepsWindow (Recorded.start id userID dumpMax dump) reads :=
    along_iff_guarded
      (fun r (h : Recorded.InStep r) => h.truthful)
      (fun r c t h hc ht => h.read c hc ht)
      (fun r c t h hc ht => h.not_truthful_read c hc ht)
      (Recorded.start_inStep id userID dumpMax dump hd)
  constructor
  · intro h
    have hd := (Recorded.start_truthful_iff id userID dumpMax dump).mp h.head
    exact ⟨hd, (hrun hd).mp h⟩
  · rintro ⟨hd, hg⟩
    exact (hrun hd).mpr hg

/-- A read of `n` equal bytes. -/
def PtyRead.fill (b : β) (n : ℕ) (h0 : n ≠ 0) (hn : n ≤ 4096) : PtyRead β :=
  ⟨List.replicate n b, by simpa using h0, by simpa using hn⟩

@[simp] theorem PtyRead.fill_length (b : β) (n : ℕ) (h0 : n ≠ 0) (hn : n ≤ 4096) :
    (PtyRead.fill b n h0 hn).data.length = n := List.length_replicate

/-- A full dump of 1024 bytes and one more byte: 769 bytes are left, while the
counters still claim 1024. -/
theorem snapshot_after_trim_not_truthful :
    ∃ r, run Recorded.read (Recorded.start "s" 1 1024 none)
        [PtyRead.fill (97 : UInt8) 1024 (by decide) (by decide),
          PtyRead.fill 98 1 (by decide) (by decide)] = some r ∧
      r.session.snapshot.data.length = 769 ∧
      r.session.snapshot.endSeq - r.session.snapshot.firstSeq = 1024 ∧ ¬ r.Truthful := by
  have key : ∀ a b : PtyRead UInt8, a.data.length = 1024 → b.data.length = 1 →
      ∃ r, run Recorded.read (Recorded.start "s" 1 1024 none) [a, b] = some r ∧
        r.session.snapshot.data.length = 769 ∧
        r.session.snapshot.endSeq - r.session.snapshot.firstSeq = 1024 := by
    intro a b ha hb
    refine ⟨_, rfl, ?_, ?_⟩
    · have hmax : (createSession (β := UInt8) "s" 1 1024 none).rolling.max = 1024 := rfl
      have hsize : (createSession (β := UInt8) "s" 1 1024 none).rolling.size = 0 := rfl
      change (((createSession "s" 1 1024 none).rolling.append a.data).append b.data).size = 769
      rw [size_append _ _ b.ne_nil, size_append _ _ a.ne_nil, append_max, hmax, hsize, ha, hb]
      decide
    · have hmax : (createSession (β := UInt8) "s" 1 1024 none).rolling.max = 1024 := rfl
      change ((createSession "s" 1 1024 none).readLoop a.data |>.1.readLoop b.data).1.endSeq -
        ((createSession "s" 1 1024 none).readLoop a.data |>.1.readLoop b.data).1.firstSeq = 1024
      simp [hmax, ha, hb]
  obtain ⟨r, hr, hdata, hwindow⟩ :=
    key (PtyRead.fill 97 1024 (by decide) (by decide)) (PtyRead.fill 98 1 (by decide) (by decide))
      (PtyRead.fill_length _ _ _ _) (PtyRead.fill_length _ _ _ _)
  refine ⟨r, hr, hdata, hwindow, ?_⟩
  rintro ⟨-, hlen⟩
  omega

end GoSite.Terminal
