import GoSite.GuardedRuns

/-!
# The keystrokes of the terminal client

The client of a terminal keeps one queue of typed bytes and the role it was told last
across the sockets it opens one after another. What it sends it sends once and in the
order of typing, to its own open socket and only as a writer. The role it goes by may
have been told on an earlier socket.
-/
namespace GoSite.TerminalClient
open GuardedRuns

inductive Role where
  | writer
  | reader
  | none
  deriving Repr, DecidableEq

inductive ReadyState where
  | connecting
  | open
  | closing
  | closed
  deriving Repr, DecidableEq

/-- A text frame, as far as `handleText` tells them apart. -/
inductive TextFrame where
  | ready (role : Role)
  | other
  | malformed
  deriving Repr, DecidableEq

/-- The bytes of one call of `sendInput`. The client looks at nothing but the bytes; the
number and the role say when they were typed. -/
structure Chunk where
  number : ℕ
  role : Role
  bytes : List UInt8
  deriving Repr, DecidableEq

/-- A socket, with the role that its last ready frame announced. -/
structure Socket where
  readyState : ReadyState
  announced : Option Role
  deriving Repr, DecidableEq

/-- A call of `send` of a socket, with what held at that time. -/
structure Sent where
  socket : Option Socket
  role : Role
  chunk : Chunk
  deriving Repr, DecidableEq

/-- The client, its sockets in the order they were opened, its timers, and what was typed
and sent. -/
structure Client where
  ws : Option ℕ
  closed : Bool
  attempt : ℕ
  reconnectTimer : Option ℕ
  currentRole : Role
  pendingInput : List Chunk
  sockets : List Socket
  timers : List (ℕ × ℕ)
  timersSet : ℕ
  typed : List Chunk
  sent : List Sent
  deriving Repr, DecidableEq

namespace Client

def initial : Client := ⟨none, false, 0, none, .none, [], [], [], 0, [], []⟩

/-- The socket the client holds. -/
def current (c : Client) : Option Socket := c.ws.bind fun i => c.sockets[i]?

def IsOpen (c : Client) : Prop := c.current.map Socket.readyState = some .open

instance (c : Client) : Decidable c.IsOpen := by
  unfold IsOpen
  infer_instance

def flushInput (c : Client) (chunk : Chunk) : Client :=
  if c.ws = none then c else { c with sent := c.sent ++ [⟨c.current, c.currentRole, chunk⟩] }

def flushPendingInput (c : Client) : Client :=
  if c.pendingInput = [] then c
  else if c.currentRole ≠ .writer then c
  else if ¬ c.IsOpen then c
  else c.pendingInput.foldl flushInput { c with pendingInput := [] }

def sendInput (c : Client) (bytes : List UInt8) : Client :=
  let chunk : Chunk := ⟨c.typed.length, c.currentRole, bytes⟩
  let c := { c with typed := c.typed ++ [chunk] }
  if c.currentRole ≠ .writer then { c with pendingInput := c.pendingInput ++ [chunk] }
  else if ¬ c.IsOpen then { c with pendingInput := c.pendingInput ++ [chunk] }
  else c.flushInput chunk

def backoff (attempt : ℕ) : ℕ := min 30000 (1000 * 2 ^ min attempt 5)

def scheduleReconnect (c : Client) : Client :=
  if c.closed then c
  else
    { c with
      attempt := c.attempt + 1
      timers := c.timers ++ [(c.timersSet, backoff c.attempt)]
      timersSet := c.timersSet + 1
      reconnectTimer := some c.timersSet }

/-- `connect`. The constructor of `WebSocket` may fail. -/
def connect (c : Client) (fails : Bool) : Client :=
  if c.closed then c
  else if fails then c.scheduleReconnect
  else
    { c with
      sockets := c.sockets ++ [⟨.connecting, none⟩]
      ws := some c.sockets.length }

def start (c : Client) (fails : Bool) : Client := { c with closed := false }.connect fails

def setReadyState (c : Client) (i : ℕ) (readyState : ReadyState) : Client :=
  { c with sockets := c.sockets.modify i fun s => { s with readyState := readyState } }

/-- `close` of the socket the client holds. -/
def closeSocket (c : Client) : Client :=
  match c.ws, c.current.map Socket.readyState with
  | some i, some .connecting | some i, some .open => c.setReadyState i .closing
  | _, _ => c

def close (c : Client) : Client :=
  let c := { c with closed := true }
  let c :=
    match c.reconnectTimer with
    | some timer =>
        { c with
          timers := c.timers.filter fun t => t.1 ≠ timer
          reconnectTimer := none }
    | none => c
  { c.closeSocket with ws := none, pendingInput := [] }

def onopen (c : Client) : Client := { c with attempt := 0 }.flushPendingInput

def handleText (c : Client) : TextFrame → Client
  | .ready role => { c with currentRole := role }.flushPendingInput
  | .other => c
  | .malformed => c

def onclose (c : Client) : Client :=
  let c := { c with ws := none }
  if c.closed then c else c.scheduleReconnect

/-- The socket hears a frame. -/
def hear (c : Client) (i : ℕ) : TextFrame → Client
  | .ready role =>
      { c with sockets := c.sockets.modify i fun s => { s with announced := some role } }
  | .other => c
  | .malformed => c

end Client

/-- What happens to a client. A socket begins to close without a handler of its own. -/
inductive Event where
  | start (fails : Bool)
  | close
  | sendInput (bytes : List UInt8)
  | opened (i : ℕ)
  | text (i : ℕ) (frame : TextFrame)
  | closing (i : ℕ)
  | closed (i : ℕ)
  | timer (t : ℕ) (fails : Bool)
  deriving Repr, DecidableEq

/-- An event of a socket or a timer happens only while it is due. -/
def step (c : Client) : Event → Option Client
  | .start fails => some (c.start fails)
  | .close => some c.close
  | .sendInput bytes => some (c.sendInput bytes)
  | .opened i =>
      if (c.sockets[i]?).map Socket.readyState = some .connecting then
        some (c.setReadyState i .open).onopen
      else none
  | .text i frame =>
      if (c.sockets[i]?).map Socket.readyState = some .open then
        some ((c.hear i frame).handleText frame)
      else none
  | .closing i =>
      if (c.sockets[i]?).map Socket.readyState = some .connecting ∨
          (c.sockets[i]?).map Socket.readyState = some .open then
        some (c.setReadyState i .closing)
      else none
  | .closed i =>
      if (c.sockets[i]?).map Socket.readyState = none ∨
          (c.sockets[i]?).map Socket.readyState = some .closed then none
      else some (c.setReadyState i .closed).onclose
  | .timer t fails =>
      if t ∈ c.timers.map Prod.fst then
        some ({ c with timers := c.timers.filter fun timer => timer.1 ≠ t }.connect fails)
      else none

/-! ## What is sent -/

/-- What is typed is sent once and in order, on a socket that has announced the writer
itself, and never if it was typed by a reader. -/
structure Faithful (c : Client) : Prop where
  numbers : c.typed.map Chunk.number = List.range c.typed.length
  inOrder : (c.sent.map Sent.chunk).Sublist c.typed
  announced : ∀ s ∈ c.sent, s.socket.bind Socket.announced = some .writer
  written : ∀ s ∈ c.sent, s.chunk.role ≠ .reader

/-- What is typed is sent once and in order, on a socket that is open, while the last role
announced to the client is that of the writer. -/
structure Ordered (c : Client) : Prop where
  numbers : c.typed.map Chunk.number = List.range c.typed.length
  inOrder : (c.sent.map Sent.chunk).Sublist c.typed
  isOpen : ∀ s ∈ c.sent, s.socket.map Socket.readyState = some .open
  asWriter : ∀ s ∈ c.sent, s.role = .writer

/-- What is queued comes behind what was sent. -/
structure Queued (c : Client) : Prop where
  numbers : c.typed.map Chunk.number = List.range c.typed.length
  queued : (c.sent.map Sent.chunk ++ c.pendingInput).Sublist c.typed
  sends : ∀ s ∈ c.sent, s.socket.map Socket.readyState = some .open ∧ s.role = .writer

/-- A writer with an open socket has nothing queued. -/
structure Inv (c : Client) : Prop extends Queued c where
  drained : c.currentRole = .writer → c.IsOpen → c.pendingInput = []

section
variable {c c' : Client}

theorem Queued.ordered (h : Queued c) : Ordered c :=
  ⟨h.numbers, (List.sublist_append_left _ _).trans h.queued, fun s hs => (h.sends s hs).1,
    fun s hs => (h.sends s hs).2⟩

theorem Queued.of_same (h : Queued c) (htyped : c'.typed = c.typed) (hsent : c'.sent = c.sent)
    (hpending : c'.pendingInput = c.pendingInput) : Queued c' := by
  refine ⟨?_, ?_, ?_⟩
  · rw [htyped]
    exact h.numbers
  · rw [htyped, hsent, hpending]
    exact h.queued
  · rw [hsent]
    exact h.sends

theorem Inv.of_same (h : Inv c) (htyped : c'.typed = c.typed) (hsent : c'.sent = c.sent)
    (hpending : c'.pendingInput = c.pendingInput) (hrole : c'.currentRole = c.currentRole)
    (hopen : c'.IsOpen → c.IsOpen) : Inv c' := by
  refine ⟨h.toQueued.of_same htyped hsent hpending, fun hwriter hisOpen => ?_⟩
  rw [hpending]
  exact h.drained (hrole ▸ hwriter) (hopen hisOpen)

/-- Everything in the queue is passed to the socket. -/
theorem foldl_flushInput (chunks : List Chunk) (hws : c.ws ≠ none) :
    chunks.foldl Client.flushInput c =
      { c with sent := c.sent ++ chunks.map fun chunk => ⟨c.current, c.currentRole, chunk⟩ } := by
  induction chunks generalizing c with
  | nil => simp
  | cons chunk chunks ih =>
      have hrest := @ih { c with sent := c.sent ++ [⟨c.current, c.currentRole, chunk⟩] } hws
      rw [List.foldl_cons, Client.flushInput, if_neg hws, hrest, List.map_cons]
      dsimp only
      rw [List.append_assoc]
      rfl

theorem map_chunk (socket : Option Socket) (role : Role) (chunks : List Chunk) :
    (chunks.map fun chunk => (⟨socket, role, chunk⟩ : Sent)).map Sent.chunk = chunks := by
  rw [List.map_map]
  exact List.map_id chunks

theorem ws_of_isOpen (h : c.IsOpen) : c.ws ≠ none := by
  intro hws
  rw [Client.IsOpen, Client.current, hws] at h
  cases h

/-- After a flush nothing is queued that could be sent. -/
theorem Queued.flush (h : Queued c) : Inv c.flushPendingInput := by
  rw [Client.flushPendingInput]
  split_ifs with hempty hrole hopen
  · exact ⟨h, fun _ _ => hempty⟩
  · exact ⟨h, fun hwriter => absurd hwriter hrole⟩
  · have hrole' : c.currentRole = .writer := not_not.mp hrole
    have hfold := @foldl_flushInput { c with pendingInput := [] } c.pendingInput
      (ws_of_isOpen hopen)
    rw [hfold]
    refine ⟨⟨h.numbers, ?_, ?_⟩, fun _ _ => rfl⟩
    · dsimp only
      rw [List.append_nil, List.map_append, map_chunk]
      exact h.queued
    · intro s hs
      rcases List.mem_append.mp hs with hs | hs
      · exact h.sends s hs
      · obtain ⟨chunk, -, rfl⟩ := List.mem_map.mp hs
        exact ⟨hopen, hrole'⟩
  · exact ⟨h, fun _ hisOpen => absurd hisOpen hopen⟩

theorem numbers_typed (h : Queued c) (role : Role) (bytes : List UInt8) :
    (c.typed ++ [(⟨c.typed.length, role, bytes⟩ : Chunk)]).map Chunk.number =
      List.range (c.typed ++ [(⟨c.typed.length, role, bytes⟩ : Chunk)]).length := by
  rw [List.map_append, h.numbers, List.length_append, List.length_singleton, List.range_succ]
  rfl

theorem Inv.sendInput (h : Inv c) (bytes : List UInt8) : Inv (c.sendInput bytes) := by
  have hnumbers := numbers_typed h.toQueued c.currentRole bytes
  rw [Client.sendInput]
  dsimp only
  have hqueued : (c.sent.map Sent.chunk ++
      (c.pendingInput ++ [(⟨c.typed.length, c.currentRole, bytes⟩ : Chunk)])).Sublist
        (c.typed ++ [⟨c.typed.length, c.currentRole, bytes⟩]) := by
    rw [← List.append_assoc]
    exact h.queued.append_right _
  split_ifs with hrole hopen
  · exact ⟨⟨hnumbers, hqueued, h.sends⟩, fun hwriter => absurd hwriter hrole⟩
  · have hrole' : c.currentRole = .writer := not_not.mp hrole
    have hempty := h.drained hrole' hopen
    rw [Client.flushInput, if_neg (ws_of_isOpen hopen)]
    refine ⟨⟨hnumbers, ?_, ?_⟩, fun _ _ => hempty⟩
    · dsimp only
      rw [hempty, List.append_nil, List.map_append]
      rwa [hempty] at hqueued
    · intro s hs
      rcases List.mem_append.mp hs with hs | hs
      · exact h.sends s hs
      · rw [List.mem_singleton.mp hs]
        exact ⟨hopen, hrole'⟩
  · exact ⟨⟨hnumbers, hqueued, h.sends⟩, fun _ hisOpen => absurd hisOpen hopen⟩

theorem Inv.scheduleReconnect (h : Inv c) : Inv c.scheduleReconnect := by
  rw [Client.scheduleReconnect]
  split_ifs
  · exact h
  · exact h.of_same rfl rfl rfl rfl id

theorem Inv.connect (h : Inv c) (fails : Bool) : Inv (c.connect fails) := by
  rw [Client.connect]
  split_ifs
  · exact h
  · exact h.scheduleReconnect
  · refine h.of_same rfl rfl rfl rfl fun hopen => ?_
    simp [Client.IsOpen, Client.current] at hopen

/-- A socket that is not opened opens for nobody. -/
theorem isOpen_setReadyState {i : ℕ} {readyState : ReadyState} (hstate : readyState ≠ .open)
    (h : (c.setReadyState i readyState).IsOpen) : c.IsOpen := by
  rw [Client.IsOpen, Client.current, Client.setReadyState] at h
  rw [Client.IsOpen, Client.current]
  cases hws : c.ws with
  | none =>
      rw [hws] at h
      cases h
  | some j =>
      rw [hws] at h
      simp only [Option.bind_some, List.getElem?_modify] at h ⊢
      by_cases hij : i = j
      · cases hsocket : c.sockets[j]? with
        | none => simp [hsocket] at h
        | some s =>
            simp only [hsocket, hij, if_true, Option.map_eq_map, Option.map_some,
              Option.some.injEq] at h
            exact absurd h hstate
      · cases hsocket : c.sockets[j]? with
        | none => simp [hsocket] at h
        | some s => simpa [hsocket, hij] using h

theorem Inv.setReadyState (h : Inv c) (i : ℕ) {readyState : ReadyState}
    (hstate : readyState ≠ .open) : Inv (c.setReadyState i readyState) :=
  h.of_same rfl rfl rfl rfl (isOpen_setReadyState hstate)

theorem Inv.onclose (h : Inv c) : Inv c.onclose := by
  have hnone : Inv { c with ws := none } := h.of_same rfl rfl rfl rfl fun hopen => by cases hopen
  rw [Client.onclose]
  dsimp only
  split_ifs
  · exact hnone
  · exact hnone.scheduleReconnect

theorem Inv.closeSocket (h : Inv c) : Inv c.closeSocket := by
  rw [Client.closeSocket]
  split
  · exact h.setReadyState _ (by simp)
  · exact h.setReadyState _ (by simp)
  · exact h

theorem Inv.close (h : Inv c) : Inv c.close := by
  have hdropped : ∀ c : Client, Inv c → Inv { c with ws := none, pendingInput := [] } := by
    intro c hc
    refine ⟨⟨hc.numbers, ?_, hc.sends⟩, fun _ hopen => by cases hopen⟩
    exact ((List.append_sublist_append_left _).mpr (List.nil_sublist _)).trans hc.queued
  have hclosed : Inv { c with closed := true } := h.of_same rfl rfl rfl rfl id
  rw [Client.close]
  refine hdropped _ (Inv.closeSocket ?_)
  dsimp only
  split
  · exact hclosed.of_same rfl rfl rfl rfl id
  · exact hclosed

theorem Inv.handleText (h : Inv c) (i : ℕ) (frame : TextFrame) :
    Inv ((c.hear i frame).handleText frame) := by
  cases frame with
  | ready role => exact Queued.flush (h.toQueued.of_same rfl rfl rfl)
  | other => exact h
  | malformed => exact h

end

/-- One event keeps the queue behind what was sent. -/
theorem Inv.step {c c' : Client} {e : Event} (h : Inv c) (hstep : step c e = some c') :
    Inv c' := by
  cases e with
  | start fails =>
      obtain rfl := Option.some.inj hstep
      have hopened : Inv { c with closed := false } := h.of_same rfl rfl rfl rfl id
      exact hopened.connect fails
  | close =>
      obtain rfl := Option.some.inj hstep
      exact h.close
  | sendInput bytes =>
      obtain rfl := Option.some.inj hstep
      exact h.sendInput bytes
  | opened i =>
      rw [TerminalClient.step] at hstep
      split_ifs at hstep
      obtain rfl := Option.some.inj hstep
      exact Queued.flush (h.toQueued.of_same rfl rfl rfl)
  | text i frame =>
      rw [TerminalClient.step] at hstep
      split_ifs at hstep
      obtain rfl := Option.some.inj hstep
      exact h.handleText i frame
  | closing i =>
      rw [TerminalClient.step] at hstep
      split_ifs at hstep
      obtain rfl := Option.some.inj hstep
      exact h.setReadyState i (by simp)
  | closed i =>
      rw [TerminalClient.step] at hstep
      split_ifs at hstep
      obtain rfl := Option.some.inj hstep
      exact (h.setReadyState i (by simp)).onclose
  | timer t fails =>
      rw [TerminalClient.step] at hstep
      split_ifs at hstep
      obtain rfl := Option.some.inj hstep
      have hfired : Inv { c with timers := c.timers.filter fun timer => timer.1 ≠ t } :=
        h.of_same rfl rfl rfl rfl id
      exact hfired.connect fails

/-- Over every run each typed chunk is sent at most once, in the order of typing, to the
open socket of the client and under the role of the writer. -/
theorem keystrokes_once_in_order (events : List Event) :
    Along step Ordered Client.initial events := by
  have hinitial : Inv Client.initial :=
    ⟨⟨rfl, List.Sublist.refl _, fun s hs => by cases hs⟩, fun _ _ => rfl⟩
  exact (along_of_invariant (fun _ _ _ h hstep => h.step hstep) events hinitial).mono
    fun _ h => h.toQueued.ordered

/-- A writer loses its socket and types, and the next socket opens. -/
def lostSocket : List Event :=
  [.start false, .opened 0, .text 0 (.ready .writer), .closed 0, .sendInput [120],
    .timer 0 false, .opened 1]

/-- The new socket is sent the queue before it has announced a role. -/
theorem role_outlives_its_socket :
    ∃ c, run step Client.initial lostSocket = some c ∧ ¬ Faithful c := by
  refine ⟨(run step Client.initial lostSocket).get (by decide), (Option.some_get _).symm, ?_⟩
  intro hfaithful
  have hannounced : ∀ s ∈ ((run step Client.initial lostSocket).get (by decide)).sent,
      s.socket.bind Socket.announced = some .writer := hfaithful.announced
  exact absurd hannounced (by decide)

end GoSite.TerminalClient
