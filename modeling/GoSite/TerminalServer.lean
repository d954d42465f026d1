import GoSite.DumpPaths
import GoSite.GuardedRuns
import GoSite.RollingFile
import GoSite.TerminalHub

/-!
# The terminal server

The goroutines of the server as threads. A thread stands for what a goroutine
has still to do; one step takes one thread through one lock-protected section.
Output bytes carry the user whose session produced them. Pausing the broadcast
only delays `fanoutLoop` and is left out here.
-/
namespace GoSite.Terminal

/-- A byte together with the user whose session wrote it, if a session did. -/
structure OutByte where
  byte : UInt8
  producer : Option ℤ
  deriving Repr, DecidableEq

/-- What a goroutine does next. -/
inductive Thread where
  /-- `AttachOrCreate` of a client's handler. -/
  | attachOrCreate (userID : ℤ) (sessionID : String)
  /-- `Create` up to the cap check and the choice of the id. -/
  | create (userID : ℤ) (sessionID : String)
  /-- `Create` at `NewPtySession` and `Start`. -/
  | start (userID : ℤ) (id : String)
  /-- `Create` at `register`. -/
  | register (userID : ℤ) (s : SessionRef)
  /-- `AttachAndPump` of a client up to `Attach`. -/
  | attach (userID : ℤ) (s : SessionRef)
  /-- `AttachAndPump` at the snapshot. -/
  | snapshot (userID : ℤ) (s : SessionRef)
  /-- `AttachAndPump` while the socket is open. -/
  | pump (userID : ℤ) (s : SessionRef)
  /-- The handler of the snapshot endpoint. -/
  | getSnapshot (userID : ℤ) (id : String)
  /-- The same handler after its ownership check. -/
  | reply (userID : ℤ) (s : SessionRef)
  /-- `Hub.Kill`, called by a handler or by the sweeper. -/
  | kill (id : String)
  /-- `Hub.Kill` after the lookup. -/
  | killSession (s : SessionRef)
  /-- `Hub.Kill` at its last line. -/
  | unregister (s : SessionRef)
  /-- `waitLoop` up to the exit callback. -/
  | wait (s : SessionRef)
  /-- `waitLoop` after the exit callback. -/
  | finish (s : SessionRef)
  /-- `readLoop` at the top of its loop. -/
  | readLoop (s : SessionRef)
  /-- `readLoop` with the bytes of a read. -/
  | append (s : SessionRef) (data : List OutByte)
  | fanoutLoop (s : SessionRef)
  deriving Repr, DecidableEq

/-- How the world outside answers a step. -/
inductive Env where
  /-- The calls of the section succeed. -/
  | ok
  /-- The shell does not start, the socket is closed or the PTY is at its end. -/
  | fails
  /-- `idGen` returns this id. -/
  | newID (id : String)
  /-- The PTY returns these bytes. -/
  | output (data : List UInt8)
  deriving Repr, DecidableEq

inductive ServerAction where
  /-- A request or the sweeper starts a goroutine. -/
  | call (t : Thread)
  | advance (t : Thread) (env : Env)
  /-- A shell ends by itself. -/
  | exit (s : SessionRef)
  /-- The server process ends and starts again. Only the files are left. -/
  | restart
  deriving Repr, DecidableEq

structure ServerConfig where
  dumpDir : String
  dumpMax : ℕ
  perUser : ℤ

def demoConfig : ServerConfig := ⟨"/tmp", 4096, 8⟩

/-- `running` holds the sessions whose shell runs, `closed` the killed ones,
`fanout` the chunks on their way to `fanoutLoop`, `conns` the attached clients
and `sent` what clients have been sent. -/
structure Server where
  hub : Hub
  next : ℕ
  running : List SessionRef
  closed : List SessionRef
  threads : List Thread
  dumps : List Char → Option (List OutByte)
  fanout : List (SessionRef × List OutByte)
  conns : List (ℤ × SessionRef)
  sent : List (ℤ × List OutByte)

/-- A server that has just been started over the files `dumps`. -/
def Server.init (cfg : ServerConfig) (dumps : List Char → Option (List OutByte)) : Server where
  hub := newHub cfg.perUser
  next := 0
  running := []
  closed := []
  threads := []
  dumps := dumps
  fanout := []
  conns := []
  sent := []

/-- The file of a session as its `RollingFile` finds it. -/
def Server.rolling (cfg : ServerConfig) (s : Server) (r : SessionRef) : RollingFile OutByte :=
  newRollingFile cfg.dumpMax (s.dumps (dumpPathFor cfg.dumpDir r.id))

def Server.setDump (cfg : ServerConfig) (s : Server) (r : SessionRef)
    (file : RollingFile OutByte) : Server :=
  { s with dumps := Function.update s.dumps (dumpPathFor cfg.dumpDir r.id) file.contents }

/-- `PtySession.Kill`. -/
def Server.killPty (cfg : ServerConfig) (s : Server) (r : SessionRef) : Server :=
  if r ∈ s.closed then s
  else
    let s := s.setDump cfg r (s.rolling cfg r).remove
    { s with closed := r :: s.closed, running := s.running.filter (· ≠ r) }

/-- A client is sent the bytes of a session's dump. No frame is sent for none. -/
def Server.sendSnapshot (cfg : ServerConfig) (s : Server) (userID : ℤ) (r : SessionRef) :
    Server :=
  let data := (s.rolling cfg r).readAll
  if data = [] then s else { s with sent := s.sent ++ [(userID, data)] }

/-- One read is appended to the dump and handed to `fanoutLoop`, unless 256
chunks are waiting there. -/
def Server.appendOutput (cfg : ServerConfig) (s : Server) (r : SessionRef)
    (data : List OutByte) : Server :=
  let s := s.setDump cfg r ((s.rolling cfg r).append data)
  if (s.fanout.filter (·.1 = r)).length < 256 then { s with fanout := s.fanout ++ [(r, data)] }
  else s

/-- `broadcast` of the oldest chunk of a session to every attached client. -/
def Server.broadcast (s : Server) (r : SessionRef) : Option Server :=
  (s.fanout.find? (·.1 = r)).map fun chunk =>
    { s with
      fanout := s.fanout.erase chunk
      sent := s.sent ++ (s.conns.filter (·.2 = r)).map fun c => (c.1, chunk.2) }

/-- One section of a thread: the state after it and what goes on from there. -/
def Server.sectionOf (cfg : ServerConfig) (s : Server) : Thread → Env →
    Option (Server × List Thread)
  | .attachOrCreate userID sessionID, .ok =>
      if sessionID = "" then some (s, [.create userID sessionID])
      else
        match s.hub.get sessionID with
        | some r => if r.userID ≠ userID then some (s, []) else some (s, [.attach userID r])
        | none => some (s, [.create userID sessionID])
  | .create userID sessionID, .newID id =>
      if s.hub.capReached userID then some (s, [])
      else some (s, [.start userID (if sessionID = "" then id else sessionID)])
  | .start userID id, .ok =>
      let r : SessionRef := ⟨s.next, id, userID⟩
      some ({ s with next := s.next + 1, running := r :: s.running },
        [.register userID r, .wait r, .readLoop r, .fanoutLoop r])
  | .start _ _, .fails => some (s, [])
  | .register userID r, .ok => some ({ s with hub := s.hub.register r }, [.attach userID r])
  | .attach userID r, .ok =>
      some ({ s with conns := (userID, r) :: s.conns }, [.snapshot userID r])
  | .attach _ _, .fails => some (s, [])
  | .snapshot userID r, .ok => some (s.sendSnapshot cfg userID r, [.pump userID r])
  | .snapshot userID r, .fails => some ({ s with conns := s.conns.erase (userID, r) }, [])
  | .pump userID r, .ok => some (s.sendSnapshot cfg userID r, [.pump userID r])
  | .pump userID r, .fails => some ({ s with conns := s.conns.erase (userID, r) }, [])
  | .getSnapshot userID id, .ok =>
      match s.hub.get id with
      | some r => if r.userID ≠ userID then some (s, []) else some (s, [.reply userID r])
      | none => some (s, [])
  | .reply userID r, .ok => some (s.sendSnapshot cfg userID r, [])
  | .kill id, .ok =>
      match s.hub.get id with
      | some r => some (s, [.killSession r])
      | none => some (s, [])
  | .killSession r, .ok => some (s.killPty cfg r, [.unregister r])
  | .unregister r, .ok => some ({ s with hub := s.hub.unregister r.id }, [])
  | .wait r, .ok =>
      if r ∈ s.running then none
      else some ({ s with hub := s.hub.unregister r.id }, [.finish r])
  | .finish r, .ok =>
      some ({ s with conns := s.conns.filter (·.2 ≠ r) }.killPty cfg r, [])
  | .readLoop r, .output data =>
      if r ∈ s.closed ∨ data = [] then none
      else some (s, [.append r (data.map fun b => ⟨b, some r.userID⟩)])
  | .readLoop _, .fails => some (s, [])
  | .append r data, .ok => some (s.appendOutput cfg r data, [.readLoop r])
  | .fanoutLoop r, .ok => (s.broadcast r).map fun s => (s, [.fanoutLoop r])
  | .fanoutLoop r, .fails => if r ∈ s.closed then some (s, []) else none
  | _, _ => none

/-- The calls a request or the sweeper makes. -/
def Thread.entry : Thread → Bool
  | .attachOrCreate _ _ | .create _ _ | .getSnapshot _ _ | .kill _ => true
  | _ => false

def serverStep (cfg : ServerConfig) (s : Server) : ServerAction → Option Server
  | .call t => if t.entry then some { s with threads := t :: s.threads } else none
  | .advance t env =>
      if t ∈ s.threads then
        (s.sectionOf cfg t env).map fun out =>
          { out.1 with threads := out.2 ++ s.threads.erase t }
      else none
  | .exit r =>
      if r ∈ s.running then some { s with running := s.running.filter (· ≠ r) } else none
  | .restart => some { Server.init cfg s.dumps with next := s.next, sent := s.sent }

@[simp] theorem killPty_hub (cfg : ServerConfig) (s : Server) (r : SessionRef) :
    (s.killPty cfg r).hub = s.hub := by
  unfold Server.killPty
  split_ifs <;> rfl

@[simp] theorem killPty_next (cfg : ServerConfig) (s : Server) (r : SessionRef) :
    (s.killPty cfg r).next = s.next := by
  unfold Server.killPty
  split_ifs <;> rfl

@[simp] theorem killPty_threads (cfg : ServerConfig) (s : Server) (r : SessionRef) :
    (s.killPty cfg r).threads = s.threads := by
  unfold Server.killPty
  split_ifs <;> rfl

/-- After `Kill` the session is closed, and only its shell was ended. -/
theorem mem_killPty_closed {cfg : ServerConfig} {s : Server} {r q : SessionRef} :
    q ∈ (s.killPty cfg r).closed ↔ q ∈ s.closed ∨ q = r := by
  unfold Server.killPty
  split_ifs with hr
  · constructor
    · exact .inl
    · rintro (hq | rfl)
      · exact hq
      · exact hr
  · simp [Server.setDump, or_comm]

theorem mem_killPty_running {cfg : ServerConfig} {s : Server} {r q : SessionRef}
    (h : r ∈ s.closed → r ∉ s.running) :
    q ∈ (s.killPty cfg r).running ↔ q ∈ s.running ∧ q ≠ r := by
  unfold Server.killPty
  split_ifs with hr
  · constructor
    · intro hq
      refine ⟨hq, ?_⟩
      rintro rfl
      exact h hr hq
    · exact And.left
  · simp [Server.setDump]

/-- The threads that may end with nothing done. -/
def Thread.quits : Thread → Bool
  | .attachOrCreate _ _ | .create _ _ | .start _ _ | .attach _ _ | .getSnapshot _ _ | .kill _
  | .readLoop _ | .fanoutLoop _ => true
  | _ => false

/-- What a section can do: the thread, the state after it and the threads that
go on. -/
inductive Took (cfg : ServerConfig) (s : Server) : Thread → Server → List Thread → Prop
  | quit {t : Thread} (hquit : t.quits = true) : Took cfg s t s []
  | found {userID : ℤ} {id : String} {r : SessionRef} (hget : s.hub.get id = some r)
      (hown : r.userID = userID) : Took cfg s (.attachOrCreate userID id) s [.attach userID r]
  | missing (userID : ℤ) (sessionID id : String) :
      Took cfg s (.attachOrCreate userID sessionID) s [.create userID id]
  | create (userID : ℤ) (sessionID id : String) :
      Took cfg s (.create userID sessionID) s [.start userID id]
  | start (userID : ℤ) (id : String) :
      Took cfg s (.start userID id)
        { s with next := s.next + 1, running := ⟨s.next, id, userID⟩ :: s.running }
        [.register userID ⟨s.next, id, userID⟩, .wait ⟨s.next, id, userID⟩,
          .readLoop ⟨s.next, id, userID⟩, .fanoutLoop ⟨s.next, id, userID⟩]
  | register (userID : ℤ) (r : SessionRef) :
      Took cfg s (.register userID r) { s with hub := s.hub.register r } [.attach userID r]
  | attach (userID : ℤ) (r : SessionRef) :
      Took cfg s (.attach userID r) { s with conns := (userID, r) :: s.conns }
        [.snapshot userID r]
  | snapshot (userID : ℤ) (r : SessionRef) :
      Took cfg s (.snapshot userID r) (s.sendSnapshot cfg userID r) [.pump userID r]
  | replay (userID : ℤ) (r : SessionRef) :
      Took cfg s (.pump userID r) (s.sendSnapshot cfg userID r) [.pump userID r]
  | detach {t : Thread} {userID : ℤ} {r : SessionRef}
      (ht : t = .snapshot userID r ∨ t = .pump userID r) :
      Took cfg s t { s with conns := s.conns.erase (userID, r) } []
  | allowed {userID : ℤ} {id : String} {r : SessionRef} (hget : s.hub.get id = some r)
      (hown : r.userID = userID) : Took cfg s (.getSnapshot userID id) s [.reply userID r]
  | reply (userID : ℤ) (r : SessionRef) :
      Took cfg s (.reply userID r) (s.sendSnapshot cfg userID r) []
  | kill {id : String} {r : SessionRef} (hget : s.hub.get id = some r) :
      Took cfg s (.kill id) s [.killSession r]
  | killSession (r : SessionRef) :
      Took cfg s (.killSession r) (s.killPty cfg r) [.unregister r]
  | unregister (r : SessionRef) :
      Took cfg s (.unregister r) { s with hub := s.hub.unregister r.id } []
  | wait {r : SessionRef} (hended : r ∉ s.running) :
      Took cfg s (.wait r) { s with hub := s.hub.unregister r.id } [.finish r]
  | finish (r : SessionRef) :
      Took cfg s (.finish r)
        (Server.killPty cfg { s with conns := s.conns.filter (·.2 ≠ r) } r) []
  | readLoop {r : SessionRef} (hopen : r ∉ s.closed) {data : List UInt8} (hdata : data ≠ []) :
      Took cfg s (.readLoop r) s [.append r (data.map fun b => ⟨b, some r.userID⟩)]
  | append (r : SessionRef) (data : List OutByte) :
      Took cfg s (.append r data) (s.appendOutput cfg r data) [.readLoop r]
  | broadcast {r : SessionRef} {t : Server} (ht : s.broadcast r = some t) :
      Took cfg s (.fanoutLoop r) t [.fanoutLoop r]

theorem took_of_sectionOf {cfg : ServerConfig} {s : Server} {t : Thread} {env : Env}
    {out : Server × List Thread} (h : s.sectionOf cfg t env = some out) :
    Took cfg s t out.1 out.2 := by
  unfold Server.sectionOf at h
  split at h <;> try simp only [Option.some.injEq, reduceCtorEq] at h
  · rename_i userID sessionID
    split_ifs at h with hid
    · obtain rfl := Option.some.inj h
      exact .missing _ _ _
    · cases hget : s.hub.get sessionID with
      | none =>
          simp only [hget, Option.some.injEq] at h
          subst h
          exact .missing _ _ _
      | some r =>
          simp only [hget] at h
          split_ifs at h with hown
          · obtain rfl := Option.some.inj h
            exact .quit rfl
          · obtain rfl := Option.some.inj h
            exact .found hget (not_not.mp hown)
  · split_ifs at h with hcap
    · obtain rfl := Option.some.inj h
      exact .quit rfl
    all_goals
      obtain rfl := Option.some.inj h
      exact .create _ _ _
  · subst h
    exact .start _ _
  · subst h
    exact .quit rfl
  · subst h
    exact .register _ _
  · subst h
    exact .attach _ _
  · subst h
    exact .quit rfl
  · subst h
    exact .snapshot _ _
  · subst h
    exact .detach (.inl rfl)
  · subst h
    exact .replay _ _
  · subst h
    exact .detach (.inr rfl)
  · rename_i userID id
    cases hget : s.hub.get id with
    | none =>
        simp only [hget, Option.some.injEq] at h
        subst h
        exact .quit rfl
    | some r =>
        simp only [hget] at h
        split_ifs at h with hown
        · obtain rfl := Option.some.inj h
          exact .quit rfl
        · obtain rfl := Option.some.inj h
          exact .allowed hget (not_not.mp hown)
  · subst h
    exact .reply _ _
  · rename_i id
    cases hget : s.hub.get id with
    | none =>
        simp only [hget, Option.some.injEq] at h
        subst h
        exact .quit rfl
    | some r =>
        simp only [hget, Option.some.injEq] at h
        subst h
        exact .kill hget
  · subst h
    exact .killSession _
  · subst h
    exact .unregister _
  · split_ifs at h with hrun
    obtain rfl := Option.some.inj h
    exact .wait hrun
  · subst h
    exact .finish _
  · split_ifs at h with hread
    obtain rfl := Option.some.inj h
    obtain ⟨hopen, hdata⟩ := not_or.mp hread
    exact .readLoop hopen hdata
  · subst h
    exact .quit rfl
  · subst h
    exact .append _ _
  · obtain ⟨t, ht, rfl⟩ := Option.map_eq_some_iff.mp h
    exact .broadcast ht
  · split_ifs at h
    obtain rfl := Option.some.inj h
    exact .quit rfl

end GoSite.Terminal
