import GoSite.PtySession

/-!
# The output side of a terminal session

`readLoop` appends a read to the dump and hands it to `fanoutLoop`, which sends
it to the attached sockets unless the broadcast is paused. `AttachAndPump`
pauses the broadcast, attaches its socket, sends the ready frame with a snapshot
and resumes. Every lock-protected section is one step. Sockets have numbers, and
a socket is used for one connection only.
-/
namespace GoSite.Terminal

variable {β : Type*}

/-- A message on a socket. A snapshot and a chunk are binary frames alike. -/
inductive Frame (β : Type*) where
  | ready (firstSeq endSeq : ℕ)
  | snapshot (seq : ℕ) (data : List β)
  | chunk (c : PtyChunk β)
  deriving Repr, DecidableEq

/-- Where `fanoutLoop` is with the chunk it has taken. -/
inductive FanoutLoop (β : Type*) where
  | idle
  /-- Before `maybeBuffer`. -/
  | taken (c : PtyChunk β)
  /-- Before the pause check; `kept` when `maybeBuffer` has kept the chunk. -/
  | buffered (c : PtyChunk β) (kept : Bool)
  /-- In `broadcast`, before the targets are read. -/
  | cleared (c : PtyChunk β)
  /-- In `broadcast`, before the writes. -/
  | aimed (c : PtyChunk β) (targets : List ℕ)
  deriving Repr, DecidableEq

/-- Where the `AttachAndPump` of a socket is. `leaving` marks the deferred
resume. -/
inductive Handler (β : Type*) where
  | absent
  | entered
  | paused
  | attached
  | read (snap : SessionSnapshot β)
  | written
  | flushing (rest : List (PtyChunk β)) (leaving : Bool)
  | flushAimed (c : PtyChunk β) (targets : List ℕ) (rest : List (PtyChunk β)) (leaving : Bool)
  | pumping
  | leaving
  | detaching
  | gone
  deriving Repr, DecidableEq

/-- `reader` is the chunk `readLoop` has appended and not handed over yet,
`broken` the sockets that are closed, and `wires` what was written to each. -/
structure StreamState (β : Type*) where
  recorded : Recorded β
  reader : Option (PtyChunk β)
  fanout : List (PtyChunk β)
  loop : FanoutLoop β
  pauseCount : ℕ
  pending : List (PtyChunk β)
  attached : List ℕ
  handlers : ℕ → Handler β
  broken : List ℕ
  wires : ℕ → List (Frame β)

/-- A session as `Hub.Create` starts it. -/
def StreamState.start (id : String) (userID dumpMax : ℤ) (dump : Option (List β)) :
    StreamState β where
  recorded := Recorded.start id userID dumpMax dump
  reader := none
  fanout := []
  loop := .idle
  pauseCount := 0
  pending := []
  attached := []
  handlers _ := .absent
  broken := []
  wires _ := []

inductive StreamAction (β : Type*) where
  /-- `readLoop` appends a read. -/
  | read (c : PtyRead β)
  /-- `readLoop` hands the chunk to `fanoutLoop`. -/
  | enqueue
  /-- `fanoutLoop` takes its next step. -/
  | fan
  /-- A socket is opened. -/
  | connect (i : ℕ)
  /-- The `AttachAndPump` of a socket takes its next step. -/
  | pump (i : ℕ)
  /-- The reader of a closed socket ends the pump. -/
  | hangup (i : ℕ)
  /-- A socket is closed. -/
  | breaks (i : ℕ)

/-- The writes of `broadcast`: closed sockets are detached. -/
def StreamState.write (s : StreamState β) (c : PtyChunk β) (targets : List ℕ) : StreamState β :=
  { s with
    wires := fun i => if i ∈ targets ∧ i ∉ s.broken then s.wires i ++ [.chunk c] else s.wires i
    attached := s.attached.filter fun i => ¬ (i ∈ targets ∧ i ∈ s.broken) }

/-- One step of `fanoutLoop`. -/
def StreamState.fan (s : StreamState β) : Option (StreamState β) :=
  match s.loop with
  | .idle =>
      match s.fanout with
      | [] => none
      | c :: rest => some { s with loop := .taken c, fanout := rest }
  | .taken c =>
      if s.pauseCount = 0 then some { s with loop := .buffered c false }
      else some { s with loop := .buffered c true, pending := s.pending ++ [c] }
  | .buffered c _ =>
      if s.pauseCount > 0 then some { s with loop := .idle } else some { s with loop := .cleared c }
  | .cleared c => some { s with loop := .aimed c s.attached }
  | .aimed c targets => some { s.write c targets with loop := .idle }

def StreamState.setHandler (s : StreamState β) (i : ℕ) (h : Handler β) : StreamState β :=
  { s with handlers := Function.update s.handlers i h }

/-- `ResumeBroadcast` up to the flush. The pending chunks are taken even when the
broadcast was not paused. -/
def StreamState.resume (s : StreamState β) (i : ℕ) (leaving : Bool) : StreamState β :=
  let wasPaused := s.pauseCount > 0
  { s with pauseCount := s.pauseCount - 1, pending := [] }.setHandler i
    (.flushing (if wasPaused then s.pending else []) leaving)

/-- The frames that `AttachAndPump` sends for a snapshot. -/
def snapshotFrames (snap : SessionSnapshot β) : List (Frame β) :=
  .ready snap.firstSeq snap.endSeq ::
    (if snap.data = [] then [] else [.snapshot snap.firstSeq snap.data])

/-- One step of an `AttachAndPump`. -/
def StreamState.pump (s : StreamState β) (i : ℕ) : Option (StreamState β) :=
  match s.handlers i with
  | .entered => some ({ s with pauseCount := s.pauseCount + 1 }.setHandler i .paused)
  | .paused => some ({ s with attached := s.attached ++ [i] }.setHandler i .attached)
  | .attached => some (s.setHandler i (.read s.recorded.session.snapshot))
  | .read snap =>
      if i ∈ s.broken then some (s.setHandler i .leaving)
      else
        some ({ s with
          wires := Function.update s.wires i (s.wires i ++ snapshotFrames snap) }.setHandler i
            .written)
  | .written => some (s.resume i false)
  | .flushing [] leaving => some (s.setHandler i (if leaving then .detaching else .pumping))
  | .flushing (c :: rest) leaving =>
      some (s.setHandler i (.flushAimed c s.attached rest leaving))
  | .flushAimed c targets rest leaving =>
      some ((s.write c targets).setHandler i (.flushing rest leaving))
  | .leaving => some (s.resume i true)
  | .detaching => some ({ s with attached := s.attached.erase i }.setHandler i .gone)
  | .absent | .pumping | .gone => none

/-- A chunk is dropped when 256 of them are waiting. -/
def streamStep (s : StreamState β) : StreamAction β → Option (StreamState β)
  | .read c =>
      match s.reader with
      | some _ => none
      | none =>
          let (session, chunk) := s.recorded.session.readLoop c.data
          some { s with
            recorded := ⟨session, s.recorded.stream ++ c.data⟩
            reader := some chunk }
  | .enqueue =>
      match s.reader with
      | none => none
      | some c =>
          if s.fanout.length < 256 then
            some { s with reader := none, fanout := s.fanout ++ [c] }
          else some { s with reader := none }
  | .fan => s.fan
  | .connect i =>
      match s.handlers i with
      | .absent => some (s.setHandler i .entered)
      | _ => none
  | .pump i => s.pump i
  | .hangup i =>
      match s.handlers i with
      | .pumping => if i ∈ s.broken then some (s.setHandler i .leaving) else none
      | _ => none
  | .breaks i =>
      match s.handlers i with
      | .absent => none
      | _ => if i ∈ s.broken then none else some { s with broken := i :: s.broken }

/-- Only `readLoop` touches the session. -/
theorem recorded_of_step {s t : StreamState β} {a : StreamAction β} (ha : ∀ c, a ≠ .read c)
    (ht : streamStep s a = some t) : t.recorded = s.recorded := by
  cases a with
  | read c => exact absurd rfl (ha c)
  | enqueue =>
      simp only [streamStep] at ht
      split at ht
      · cases ht
      · split_ifs at ht <;> obtain rfl := Option.some.inj ht <;> rfl
  | fan =>
      simp only [streamStep, StreamState.fan] at ht
      split at ht
      · split at ht
        · cases ht
        · obtain rfl := Option.some.inj ht
          rfl
      · split_ifs at ht <;> obtain rfl := Option.some.inj ht <;> rfl
      · split_ifs at ht <;> obtain rfl := Option.some.inj ht <;> rfl
      · obtain rfl := Option.some.inj ht
        rfl
      · obtain rfl := Option.some.inj ht
        rfl
  | connect i =>
      simp only [streamStep] at ht
      split at ht
      · obtain rfl := Option.some.inj ht
        rfl
      · cases ht
  | pump i =>
      simp only [streamStep, StreamState.pump] at ht
      split at ht
      case h_4 => split_ifs at ht <;> obtain rfl := Option.some.inj ht <;> rfl
      all_goals first
        | (obtain rfl := Option.some.inj ht; rfl)
        | cases ht
  | hangup i =>
      simp only [streamStep] at ht
      split at ht
      · split_ifs at ht
        obtain rfl := Option.some.inj ht
        rfl
      · cases ht
  | breaks i =>
      simp only [streamStep] at ht
      split at ht
      · cases ht
      · split_ifs at ht
        obtain rfl := Option.some.inj ht
        rfl

theorem step_read_eq_some {s t : StreamState β} {c : PtyRead β} :
    streamStep s (.read c) = some t ↔ s.reader = none ∧
      t = { s with
        recorded := ⟨(s.recorded.session.readLoop c.data).1, s.recorded.stream ++ c.data⟩
        reader := some (s.recorded.session.readLoop c.data).2 } := by
  simp only [streamStep]
  cases s.reader with
  | some d => simp
  | none => simp [eq_comm]

/-- The chunk `fanoutLoop` holds. -/
def FanoutLoop.chunks : FanoutLoop β → List (PtyChunk β)
  | .idle => []
  | .taken c | .buffered c _ | .cleared c | .aimed c _ => [c]

/-- The frames a handler has still to send. -/
def Handler.frames : Handler β → List (Frame β)
  | .read snap => snapshotFrames snap
  | .flushing rest _ => rest.map .chunk
  | .flushAimed c _ rest _ => (c :: rest).map .chunk
  | _ => []

/-- Every chunk on its way and every frame written meets a condition. -/
structure StreamState.Holds (P : Frame β → Prop) (s : StreamState β) : Prop where
  reader : ∀ c ∈ s.reader, P (.chunk c)
  fanout : ∀ c ∈ s.fanout, P (.chunk c)
  loop : ∀ c ∈ s.loop.chunks, P (.chunk c)
  pending : ∀ c ∈ s.pending, P (.chunk c)
  handlers : ∀ i, ∀ f ∈ (s.handlers i).frames, P f
  wires : ∀ i, ∀ f ∈ s.wires i, P f

section
variable {P : Frame β → Prop} {s t : StreamState β}

theorem StreamState.Holds.mono {Q : Frame β → Prop} (h : s.Holds P) (hpq : ∀ f, P f → Q f) :
    s.Holds Q where
  reader c hc := hpq _ (h.reader c hc)
  fanout c hc := hpq _ (h.fanout c hc)
  loop c hc := hpq _ (h.loop c hc)
  pending c hc := hpq _ (h.pending c hc)
  handlers i f hf := hpq _ (h.handlers i f hf)
  wires i f hf := hpq _ (h.wires i f hf)

theorem StreamState.Holds.write (h : s.Holds P) {c : PtyChunk β} (hc : P (.chunk c))
    (targets : List ℕ) : (s.write c targets).Holds P where
  reader := h.reader
  fanout := h.fanout
  loop := h.loop
  pending := h.pending
  handlers := h.handlers
  wires := by
    intro i f hf
    simp only [StreamState.write] at hf
    split_ifs at hf
    · obtain hf | hf := List.mem_append.mp hf
      · exact h.wires i f hf
      · exact List.mem_singleton.mp hf ▸ hc
    · exact h.wires i f hf

theorem StreamState.Holds.setLoop (h : s.Holds P) {loop : FanoutLoop β}
    (hloop : ∀ c ∈ loop.chunks, P (.chunk c)) : { s with loop := loop }.Holds P :=
  ⟨h.reader, h.fanout, hloop, h.pending, h.handlers, h.wires⟩

theorem StreamState.Holds.setHandler (h : s.Holds P) {i : ℕ} {k : Handler β}
    (hk : ∀ f ∈ k.frames, P f) : (s.setHandler i k).Holds P where
  reader := h.reader
  fanout := h.fanout
  loop := h.loop
  pending := h.pending
  handlers := by
    intro j f hf
    simp only [StreamState.setHandler, Function.update_apply] at hf
    split_ifs at hf
    · exact hk f hf
    · exact h.handlers j f hf
  wires := h.wires

theorem StreamState.Holds.fan (h : s.Holds P) (ht : s.fan = some t) : t.Holds P := by
  unfold StreamState.fan at ht
  cases hloop : s.loop with
  | idle =>
      cases hfan : s.fanout with
      | nil => simp [hloop, hfan] at ht
      | cons c rest =>
          simp only [hloop, hfan, Option.some.injEq] at ht
          subst ht
          have hfanout := h.fanout
          rw [hfan] at hfanout
          refine ⟨h.reader, ?_, ?_, h.pending, h.handlers, h.wires⟩
          · exact fun d hd => hfanout d (List.mem_cons_of_mem _ hd)
          · simpa [FanoutLoop.chunks] using hfanout c List.mem_cons_self
  | taken c =>
      have hc := h.loop c (by simp [hloop, FanoutLoop.chunks])
      simp only [hloop] at ht
      split_ifs at ht
      · obtain rfl := Option.some.inj ht
        exact h.setLoop (by simpa [FanoutLoop.chunks] using hc)
      · obtain rfl := Option.some.inj ht
        refine ⟨h.reader, h.fanout, by simpa [FanoutLoop.chunks] using hc, ?_, h.handlers, h.wires⟩
        intro d hd
        obtain hd | hd := List.mem_append.mp hd
        · exact h.pending d hd
        · exact List.mem_singleton.mp hd ▸ hc
  | buffered c kept =>
      have hc := h.loop c (by simp [hloop, FanoutLoop.chunks])
      simp only [hloop] at ht
      split_ifs at ht
      · obtain rfl := Option.some.inj ht
        exact h.setLoop (by simp [FanoutLoop.chunks])
      · obtain rfl := Option.some.inj ht
        exact h.setLoop (by simpa [FanoutLoop.chunks] using hc)
  | cleared c =>
      have hc := h.loop c (by simp [hloop, FanoutLoop.chunks])
      simp only [hloop, Option.some.injEq] at ht
      subst ht
      exact h.setLoop (by simpa [FanoutLoop.chunks] using hc)
  | aimed c targets =>
      have hc := h.loop c (by simp [hloop, FanoutLoop.chunks])
      simp only [hloop, Option.some.injEq] at ht
      subst ht
      exact (h.write hc targets).setLoop (by simp [FanoutLoop.chunks])

theorem StreamState.Holds.resume (h : s.Holds P) (i : ℕ) (leaving : Bool) :
    (s.resume i leaving).Holds P := by
  refine StreamState.Holds.setHandler ?_ ?_
  · exact ⟨h.reader, h.fanout, h.loop, by simp, h.handlers, h.wires⟩
  · intro f hf
    simp only [Handler.frames, List.mem_map] at hf
    obtain ⟨c, hc, rfl⟩ := hf
    split_ifs at hc
    · exact h.pending c hc
    · simp at hc

theorem StreamState.Holds.pump (h : s.Holds P)
    (hsnap : ∀ f ∈ snapshotFrames s.recorded.session.snapshot, P f) {i : ℕ}
    (ht : s.pump i = some t) : t.Holds P := by
  have hframes := h.handlers i
  unfold StreamState.pump at ht
  cases hi : s.handlers i with
  | absent | pumping | gone => simp [hi] at ht
  | entered =>
      simp only [hi, Option.some.injEq] at ht
      subst ht
      refine StreamState.Holds.setHandler ?_ ?_
      · exact ⟨h.reader, h.fanout, h.loop, h.pending, h.handlers, h.wires⟩
      · simp [Handler.frames]
  | paused =>
      simp only [hi, Option.some.injEq] at ht
      subst ht
      refine StreamState.Holds.setHandler ?_ ?_
      · exact ⟨h.reader, h.fanout, h.loop, h.pending, h.handlers, h.wires⟩
      · simp [Handler.frames]
  | attached =>
      simp only [hi, Option.some.injEq] at ht
      subst ht
      exact h.setHandler hsnap
  | read snap =>
      rw [hi] at hframes
      simp only [hi] at ht
      split_ifs at ht
      · obtain rfl := Option.some.inj ht
        exact h.setHandler (by simp [Handler.frames])
      · obtain rfl := Option.some.inj ht
        refine StreamState.Holds.setHandler ?_ ?_
        · refine ⟨h.reader, h.fanout, h.loop, h.pending, h.handlers, ?_⟩
          intro j f hf
          simp only [Function.update_apply] at hf
          split_ifs at hf
          · obtain hf | hf := List.mem_append.mp hf
            · exact h.wires i f hf
            · exact hframes f hf
          · exact h.wires j f hf
        · simp [Handler.frames]
  | written =>
      simp only [hi, Option.some.injEq] at ht
      subst ht
      exact h.resume i false
  | flushing rest leaving =>
      rw [hi] at hframes
      cases rest with
      | nil =>
          simp only [hi, Option.some.injEq] at ht
          subst ht
          refine h.setHandler ?_
          cases leaving <;> simp [Handler.frames]
      | cons c rest =>
          simp only [hi, Option.some.injEq] at ht
          subst ht
          exact h.setHandler hframes
  | flushAimed c targets rest leaving =>
      rw [hi] at hframes
      simp only [hi, Option.some.injEq] at ht
      subst ht
      refine (h.write (hframes _ (by simp [Handler.frames])) targets).setHandler ?_
      intro f hf
      exact hframes f (by simpa [Handler.frames] using Or.inr (by simpa [Handler.frames] using hf))
  | leaving =>
      simp only [hi, Option.some.injEq] at ht
      subst ht
      exact h.resume i true
  | detaching =>
      simp only [hi, Option.some.injEq] at ht
      subst ht
      refine StreamState.Holds.setHandler ?_ ?_
      · exact ⟨h.reader, h.fanout, h.loop, h.pending, h.handlers, h.wires⟩
      · simp [Handler.frames]

/-- What holds of every new chunk and every new snapshot holds of all frames. -/
theorem StreamState.Holds.step (h : s.Holds P)
    (hsnap : ∀ f ∈ snapshotFrames s.recorded.session.snapshot, P f) {a : StreamAction β}
    (hread : ∀ c, a = .read c → P (.chunk (s.recorded.session.readLoop c.data).2))
    (ht : streamStep s a = some t) : t.Holds P := by
  cases a with
  | read c =>
      simp only [streamStep] at ht
      cases hr : s.reader with
      | some d => simp [hr] at ht
      | none =>
          simp only [hr, Option.some.injEq] at ht
          subst ht
          refine ⟨?_, h.fanout, h.loop, h.pending, h.handlers, h.wires⟩
          simpa using hread c rfl
  | enqueue =>
      simp only [streamStep] at ht
      cases hr : s.reader with
      | none => simp [hr] at ht
      | some d =>
          have hd := h.reader d (by simp [hr])
          simp only [hr] at ht
          split_ifs at ht
          · obtain rfl := Option.some.inj ht
            refine ⟨by simp, ?_, h.loop, h.pending, h.handlers, h.wires⟩
            intro c hc
            obtain hc | hc := List.mem_append.mp hc
            · exact h.fanout c hc
            · exact List.mem_singleton.mp hc ▸ hd
          · obtain rfl := Option.some.inj ht
            exact ⟨by simp, h.fanout, h.loop, h.pending, h.handlers, h.wires⟩
  | fan => exact h.fan ht
  | connect i =>
      simp only [streamStep] at ht
      split at ht
      · obtain rfl := Option.some.inj ht
        exact h.setHandler (by simp [Handler.frames])
      · cases ht
  | pump i => exact h.pump hsnap ht
  | hangup i =>
      simp only [streamStep] at ht
      split at ht
      · split_ifs at ht
        obtain rfl := Option.some.inj ht
        exact h.setHandler (by simp [Handler.frames])
      · cases ht
  | breaks i =>
      simp only [streamStep] at ht
      split at ht
      · cases ht
      · split_ifs at ht
        obtain rfl := Option.some.inj ht
        exact ⟨h.reader, h.fanout, h.loop, h.pending, h.handlers, h.wires⟩

end

end GoSite.Terminal
