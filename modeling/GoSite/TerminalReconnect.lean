import GoSite.TerminalStream

/-!
# A client that reconnects

The client drops a binary frame when the frame's number is not above the last
byte it was given, and takes the frame as a whole otherwise. Snapshots always
begin with the first byte of the dump, so after a reconnect the number of a
snapshot is an old one, whatever the snapshot ends with.
-/
namespace GoSite.Terminal
open GuardedRuns StreamWindows

variable {β : Type*}

/-- The output side of `TerminalClient`: `seen` counts the messages read from
the current socket, `out` is what was passed to `onData`. -/
structure TerminalClient (β : Type*) where
  socket : Option ℕ
  seen : ℕ
  lastReceivedEnd : ℤ
  out : List β
  deriving Repr, DecidableEq

def newTerminalClient : TerminalClient β := ⟨none, 0, -1, []⟩

def TerminalClient.handleBinary (c : TerminalClient β) (seq : ℕ) (payload : List β) :
    TerminalClient β :=
  if seq ≤ c.lastReceivedEnd then c
  else { c with lastReceivedEnd := seq + payload.length - 1, out := c.out ++ payload }

/-- The handler of a message. A ready frame brings no output. -/
def TerminalClient.handle (c : TerminalClient β) : Frame β → TerminalClient β
  | .ready _ _ => c
  | .snapshot seq data => c.handleBinary seq data
  | .chunk k => c.handleBinary k.seq k.data

/-- The number a frame carries. -/
def Frame.seq : Frame β → ℕ
  | .ready _ _ => 0
  | .snapshot seq _ => seq
  | .chunk c => c.seq

def Frame.data : Frame β → List β
  | .ready _ _ => []
  | .snapshot _ data => data
  | .chunk c => c.data

/-- Where the bytes of a frame begin in the output stream: a snapshot holds the
whole of it. -/
def Frame.start : Frame β → ℕ
  | .chunk c => c.seq
  | _ => 0

def Frame.stop (f : Frame β) : ℕ := f.start + f.data.length

/-- A server, its session and one client. `delivered` is the position behind the
last byte that has reached the client. -/
structure Connection (β : Type*) where
  server : StreamState β
  client : TerminalClient β
  delivered : ℕ

inductive ConnectionAction (β : Type*) where
  | server (a : StreamAction β)
  /-- The client connects or reconnects. -/
  | connect (i : ℕ)
  /-- The next message on the client's socket arrives. -/
  | receive
  /-- The client's socket closes. What it still carries is lost. -/
  | close

def Connection.start (id : String) (userID dumpMax : ℤ) (dump : Option (List β)) :
    Connection β :=
  ⟨StreamState.start id userID dumpMax dump, newTerminalClient, 0⟩

/-- The next message on the client's socket. -/
def Connection.incoming (s : Connection β) : Option (Frame β) :=
  s.client.socket.bind fun i => (s.server.wires i)[s.client.seen]?

def connectionStep (s : Connection β) : ConnectionAction β → Option (Connection β)
  | .server a => (streamStep s.server a).map fun server => { s with server := server }
  | .connect i =>
      match s.client.socket with
      | some _ => none
      | none => (streamStep s.server (.connect i)).map fun server =>
          { s with server := server, client := { s.client with socket := some i, seen := 0 } }
  | .receive => s.incoming.map fun f =>
      { s with
        client := { s.client.handle f with seen := s.client.seen + 1 }
        delivered := max s.delivered f.stop }
  | .close =>
      match s.client.socket with
      | none => none
      | some i => some { s with
          server := (streamStep s.server (.breaks i)).getD s.server
          client := { s.client with socket := none } }

/-- The session's output stays below the cap and the fan-out queue has room. -/
def BelowLimits (s : Connection β) : ConnectionAction β → Prop
  | .server (.read c) =>
      s.server.recorded.stream.length + c.data.length ≤ s.server.recorded.session.rolling.max
  | .server .enqueue => s.server.fanout.length < 256
  | _ => True

instance (s : Connection β) (a : ConnectionAction β) : Decidable (BelowLimits s a) := by
  unfold BelowLimits
  split <;> infer_instance

/-- The client was given the beginning of the stream, up to the last byte that
has reached it. -/
def Connection.Faithful (s : Connection β) : Prop :=
  s.client.out = s.server.recorded.stream.take s.delivered

/-- A frame that the client drops brings nothing new, and one that it takes
begins with the first byte that has not reached it. -/
def FrameFits (s : Connection β) : ConnectionAction β → Prop
  | .receive => ∀ f ∈ s.incoming, f.data ≠ [] →
      if f.seq ≤ s.client.lastReceivedEnd then f.stop ≤ s.delivered else f.start = s.delivered
  | _ => True

/-- The bytes of a frame are the stream's bytes at its place. -/
structure TrueFrame (stream : List β) (f : Frame β) : Prop where
  stop_le : f.stop ≤ stream.length
  data_eq : f.data = window stream f.start f.stop
  start_of_nil : f.data = [] → f.start = 0

theorem TrueFrame.append {stream : List β} {f : Frame β} (h : TrueFrame stream f)
    (more : List β) : TrueFrame (stream ++ more) f where
  stop_le := by
    have hle := h.stop_le
    rw [List.length_append]
    omega
  data_eq := by
    rw [window_append_left stream more _ _ h.stop_le]
    exact h.data_eq
  start_of_nil := h.start_of_nil

/-- What holds below the limits. -/
structure Connection.Sound (s : Connection β) : Prop where
  endSeq_eq : s.server.recorded.session.endSeq = s.server.recorded.stream.length
  readAll_eq : s.server.recorded.session.rolling.readAll = s.server.recorded.stream
  frames : s.server.Holds (TrueFrame s.server.recorded.stream)
  delivered_le : s.delivered ≤ s.server.recorded.stream.length

theorem start_sound (id : String) (userID dumpMax : ℤ) (dump : Option (List β)) :
    (Connection.start id userID dumpMax dump).Sound where
  endSeq_eq := by simp [Connection.start, StreamState.start, Recorded.start]
  readAll_eq := by
    simp [Connection.start, StreamState.start, Recorded.start, createSession_readAll]
  frames := by
    refine ⟨?_, ?_, ?_, ?_, ?_, ?_⟩ <;>
      simp [Connection.start, StreamState.start, FanoutLoop.chunks, Handler.frames]
  delivered_le := Nat.zero_le _

/-- A snapshot taken below the cap is the whole stream. -/
theorem Connection.Sound.snapshot {s : Connection β} (h : s.Sound) :
    ∀ f ∈ snapshotFrames s.server.recorded.session.snapshot,
      TrueFrame s.server.recorded.stream f := by
  intro f hf
  simp only [snapshotFrames, List.mem_cons] at hf
  obtain rfl | hf := hf
  · exact ⟨Nat.zero_le _, by simp [Frame.data, Frame.start, Frame.stop], fun _ => rfl⟩
  · split_ifs at hf
    · simp at hf
    · obtain rfl := List.mem_singleton.mp hf
      refine ⟨?_, ?_, fun _ => rfl⟩
      · simp [Frame.stop, Frame.start, Frame.data, h.readAll_eq]
      · simp [Frame.stop, Frame.start, Frame.data, h.readAll_eq]

/-- A read below the cap. -/
theorem Connection.Sound.read {s : Connection β} (h : s.Sound) {c : PtyRead β}
    {t : StreamState β} (hfits : BelowLimits s (.server (.read c)))
    (ht : streamStep s.server (.read c) = some t) :
    Connection.Sound { s with server := t } ∧
      t.recorded.stream = s.server.recorded.stream ++ c.data := by
  have hend := h.endSeq_eq
  have hsize : s.server.recorded.session.rolling.size = s.server.recorded.stream.length := by
    rw [RollingFile.size, h.readAll_eq]
  have hchunk : TrueFrame (s.server.recorded.stream ++ c.data)
      (.chunk (s.server.recorded.session.readLoop c.data).2) := by
    refine ⟨?_, ?_, fun hnil => absurd hnil c.ne_nil⟩
    · simp [Frame.stop, Frame.start, Frame.data, hend]
    · simp [Frame.stop, Frame.start, Frame.data, hend, window_append_right]
  have hframes := (h.frames.mono fun f hf => hf.append c.data).step
    (fun f hf => (h.snapshot f hf).append c.data)
    (fun d hd => by
      obtain rfl := StreamAction.read.inj hd
      exact hchunk) ht
  obtain ⟨-, rfl⟩ := step_read_eq_some.mp ht
  refine ⟨⟨?_, ?_, hframes, ?_⟩, rfl⟩
  · simp [hend]
  · rw [readLoop_rolling, readAll_append_of_le _ _ (by rw [hsize]; exact hfits), h.readAll_eq]
  · have hle := h.delivered_le
    simp only [List.length_append]
    omega

/-- A step of the server below the limits keeps what the client has been given. -/
theorem Connection.Sound.server {s : Connection β} (h : s.Sound) {a : StreamAction β}
    {t : StreamState β} (ha : BelowLimits s (.server a)) (ht : streamStep s.server a = some t) :
    Connection.Sound { s with server := t } ∧
      t.recorded.stream.take s.delivered = s.server.recorded.stream.take s.delivered := by
  by_cases hread : ∃ c, a = .read c
  · obtain ⟨c, rfl⟩ := hread
    obtain ⟨hsound, hstream⟩ := h.read ha ht
    refine ⟨hsound, ?_⟩
    rw [hstream, List.take_append_of_le_length h.delivered_le]
  · have hne : ∀ c, a ≠ .read c := fun c hc => hread ⟨c, hc⟩
    have hsame := recorded_of_step hne ht
    have hframes := h.frames.step h.snapshot (fun c hc => absurd hc (hne c)) ht
    refine ⟨⟨?_, ?_, ?_, ?_⟩, ?_⟩ <;> simp only [hsame]
    · exact h.endSeq_eq
    · exact h.readAll_eq
    · exact hframes
    · exact h.delivered_le

/-- The frame that arrives is a part of the stream. -/
theorem Connection.Sound.incoming {s : Connection β} (h : s.Sound) {f : Frame β}
    (hf : s.incoming = some f) : TrueFrame s.server.recorded.stream f := by
  obtain ⟨i, -, hget⟩ := Option.bind_eq_some_iff.mp hf
  exact h.frames.wires i f (List.mem_of_getElem? hget)

theorem handleBinary_out (c : TerminalClient β) (seq : ℕ) (payload : List β) :
    (c.handleBinary seq payload).out =
      if seq ≤ c.lastReceivedEnd then c.out else c.out ++ payload := by
  unfold TerminalClient.handleBinary
  split_ifs <;> rfl

theorem handle_out (c : TerminalClient β) (f : Frame β) :
    (c.handle f).out = if f.seq ≤ c.lastReceivedEnd then c.out else c.out ++ f.data := by
  cases f with
  | ready => simp [TerminalClient.handle, Frame.data]
  | snapshot seq data => exact handleBinary_out c seq data
  | chunk k => exact handleBinary_out c k.seq k.data

/-- After a frame the client still has the beginning of the stream exactly when
the frame fits. -/
theorem Connection.Sound.receive_iff {s : Connection β} (h : s.Sound) (hout : s.Faithful)
    {f : Frame β} (hf : s.incoming = some f) :
    (s.client.handle f).out = s.server.recorded.stream.take (max s.delivered f.stop) ↔
      FrameFits s .receive := by
  obtain ⟨hstop, hdata, hnil⟩ := h.incoming hf
  have hdel := h.delivered_le
  have hlen : f.stop = f.start + f.data.length := rfl
  rw [handle_out, hout]
  by_cases hempty : f.data = []
  · have hmax : max s.delivered f.stop = s.delivered := by
      rw [hlen, hnil hempty, hempty]
      exact Nat.max_eq_left (Nat.zero_le _)
    simp [FrameFits, hf, hempty, hmax]
  · have hpos : 0 < f.data.length := List.length_pos_iff.mpr hempty
    simp only [FrameFits, hf, Option.mem_def, Option.some.injEq, forall_eq', ne_eq, hempty,
      not_false_eq_true, forall_const]
    split_ifs with hseq
    · constructor
      · intro heq
        have hl := congrArg List.length heq
        rw [List.length_take_of_le hdel, List.length_take_of_le (by omega)] at hl
        omega
      · intro hle
        rw [Nat.max_eq_left hle]
    · constructor
      · intro heq
        have hl := congrArg List.length heq
        rw [List.length_append, List.length_take_of_le hdel,
          List.length_take_of_le (by omega)] at hl
        omega
      · intro hstart
        rw [Nat.max_eq_right (by omega), hdata, hstart, ← window_zero, ← window_zero,
          window_append_window _ (Nat.zero_le _) (by omega)]

/-- What holds as long as every frame fits. -/
structure Connection.Tracking (s : Connection β) : Prop where
  sound : s.Sound
  faithful : s.Faithful

theorem start_tracking (id : String) (userID dumpMax : ℤ) (dump : Option (List β)) :
    (Connection.start id userID dumpMax dump).Tracking where
  sound := start_sound id userID dumpMax dump
  faithful := by simp [Connection.Faithful, Connection.start, newTerminalClient]

/-- The steps that bring the client no frame. -/
theorem Connection.Tracking.other {s t : Connection β} (h : s.Tracking)
    {a : ConnectionAction β} (hlimits : BelowLimits s a) (ha : a ≠ .receive)
    (ht : connectionStep s a = some t) : t.Tracking := by
  cases a with
  | server a =>
      obtain ⟨u, hu, rfl⟩ := Option.map_eq_some_iff.mp ht
      obtain ⟨hsound, htake⟩ := h.sound.server hlimits hu
      refine ⟨hsound, ?_⟩
      change s.client.out = u.recorded.stream.take s.delivered
      rw [htake]
      exact h.faithful
  | connect i =>
      simp only [connectionStep] at ht
      split at ht
      · cases ht
      · obtain ⟨u, hu, rfl⟩ := Option.map_eq_some_iff.mp ht
        obtain ⟨hsound, htake⟩ := h.sound.server (a := .connect i) trivial hu
        refine ⟨⟨hsound.endSeq_eq, hsound.readAll_eq, hsound.frames, hsound.delivered_le⟩, ?_⟩
        change s.client.out = u.recorded.stream.take s.delivered
        rw [htake]
        exact h.faithful
  | receive => exact absurd rfl ha
  | close =>
      simp only [connectionStep] at ht
      split at ht
      · cases ht
      · rename_i i hi
        obtain rfl := Option.some.inj ht
        cases hu : streamStep s.server (.breaks i) with
        | none => exact ⟨⟨h.sound.endSeq_eq, h.sound.readAll_eq, h.sound.frames,
            h.sound.delivered_le⟩, h.faithful⟩
        | some u =>
            obtain ⟨hsound, htake⟩ := h.sound.server (a := .breaks i) trivial hu
            refine ⟨⟨hsound.endSeq_eq, hsound.readAll_eq, hsound.frames, hsound.delivered_le⟩, ?_⟩
            change s.client.out = u.recorded.stream.take s.delivered
            rw [htake]
            exact h.faithful

/-- Below the limits, the client has the beginning of the output stream, without
a gap or a repetition, in every state of a run if and only if every frame that
reaches it fits. -/
theorem reconnect_exactly_once_iff (id : String) (userID dumpMax : ℤ)
    (dump : Option (List β)) (as : List (ConnectionAction β)) :
    Along (restrict connectionStep BelowLimits) Connection.Faithful
        (Connection.start id userID dumpMax dump) as ↔
      Guarded (restrict connectionStep BelowLimits) FrameFits
        (Connection.start id userID dumpMax dump) as := by
  refine along_iff_guarded (I := Connection.Tracking) (fun _ h => h.faithful) ?_ ?_
    (start_tracking id userID dumpMax dump)
  · intro s a t h hfits hstep
    obtain ⟨hlimits, hstep⟩ := restrict_eq_some.mp hstep
    by_cases ha : a = .receive
    · subst ha
      obtain ⟨f, hf, rfl⟩ := Option.map_eq_some_iff.mp hstep
      have hstop := (h.sound.incoming hf).stop_le
      have hdel := h.sound.delivered_le
      refine ⟨⟨h.sound.endSeq_eq, h.sound.readAll_eq, h.sound.frames, ?_⟩, ?_⟩
      · exact Nat.max_le.mpr ⟨hdel, hstop⟩
      · exact (h.sound.receive_iff h.faithful hf).mpr hfits
    · exact h.other hlimits ha hstep
  · intro s a t h hbad hstep
    obtain ⟨-, hstep⟩ := restrict_eq_some.mp hstep
    cases a with
    | server | connect | close => exact absurd trivial hbad
    | receive =>
        obtain ⟨f, hf, rfl⟩ := Option.map_eq_some_iff.mp hstep
        intro hfaithful
        exact hbad ((h.sound.receive_iff h.faithful hf).mp hfaithful)

/-- A client that has read a byte reconnects after the next one. -/
def reconnecting : List (ConnectionAction UInt8) :=
  [.connect 0, .server (.pump 0), .server (.pump 0), .server (.pump 0), .server (.pump 0),
    .server (.pump 0), .server (.pump 0), .receive,
    .server (.read ⟨[97], by decide, by decide⟩), .server .enqueue, .server .fan, .server .fan,
    .server .fan, .server .fan, .server .fan, .receive, .close,
    .server (.read ⟨[98], by decide, by decide⟩), .connect 1, .server (.pump 1),
    .server (.pump 1), .server (.pump 1), .server (.pump 1), .receive, .receive]

/-- The snapshot of both bytes is dropped as a whole, and the second byte is
never given to the client. -/
theorem second_byte_lost_on_reconnect :
    ∃ s, run (restrict connectionStep BelowLimits) (Connection.start "s" 1 1024 none)
        reconnecting = some s ∧
      s.delivered = 2 ∧ s.client.out = [97] ∧ s.server.recorded.stream = [97, 98] ∧
        ¬ s.Faithful := by
  refine ⟨_, rfl, rfl, rfl, rfl, ?_⟩
  intro hfaithful
  exact absurd (show ([97] : List UInt8) = [97, 98] from hfaithful) (by decide)

end GoSite.Terminal
