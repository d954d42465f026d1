import GoSite.TerminalServer

/-!
# Whose output a client sees

Sessions are handed out to their owner only, so the live stream stays with him.
A snapshot is read from the dump file, and the file is found by the session id.
A file outlives the registration, so what matters is who wrote it before and who
else writes it now.
-/
namespace GoSite.Terminal
open GuardedRuns StreamWindows

/-- No byte was produced by a session of another user. -/
def OwnedBy (userID : ℤ) (data : List OutByte) : Prop :=
  ∀ b ∈ data, ∀ v, b.producer = some v → v = userID

/-- Nobody has been sent a byte of another user's session. -/
def Server.Private (s : Server) : Prop := ∀ m ∈ s.sent, OwnedBy m.1 m.2

/-- The session a goroutine may still hand out, read from or write to. -/
def Thread.uses : Thread → Option SessionRef
  | .register _ r | .attach _ r | .snapshot _ r | .pump _ r | .reply _ r | .readLoop r
  | .append r _ => some r
  | _ => none

/-- The sessions whose dump may still be read or written. -/
def Server.inUse (s : Server) : List SessionRef :=
  s.threads.filterMap Thread.uses ++ s.hub.registered

/-- What lies at a path. -/
def Server.dumpAt (s : Server) (path : List Char) : List OutByte := (s.dumps path).getD []

/-- A shell is started for a user only where no other user's output lies at the
path of its dump and no other user's session still uses that path. -/
def StartsOwn (cfg : ServerConfig) (s : Server) : ServerAction → Prop
  | .advance (.start userID id) .ok =>
      (∀ b ∈ s.dumpAt (dumpPathFor cfg.dumpDir id),
        b.producer = none ∨ b.producer = some userID) ∧
      ∀ r ∈ s.inUse, dumpPathFor cfg.dumpDir r.id = dumpPathFor cfg.dumpDir id →
        r.userID = userID
  | _ => True

instance (cfg : ServerConfig) (s : Server) (a : ServerAction) :
    Decidable (StartsOwn cfg s a) := by
  unfold StartsOwn
  split <;> infer_instance

theorem mem_inUse {s : Server} {r : SessionRef} :
    r ∈ s.inUse ↔ (∃ t ∈ s.threads, t.uses = some r) ∨ ∃ id, s.hub.get id = some r := by
  rw [Server.inUse, List.mem_append, List.mem_filterMap, mem_registered]

/-- The client a goroutine works for holds only sessions of its own, and a read
brings bytes of the session's owner. -/
def Thread.Honest : Thread → Prop
  | .register u r | .attach u r | .snapshot u r | .pump u r | .reply u r => r.userID = u
  | .append r data => OwnedBy r.userID data
  | _ => True

/-- What holds as long as every start meets `StartsOwn`. -/
structure Server.Owned (cfg : ServerConfig) (s : Server) : Prop where
  sent : s.Private
  honest : ∀ t ∈ s.threads, t.Honest
  conns : ∀ c ∈ s.conns, c.2.userID = c.1
  fanout : ∀ f ∈ s.fanout, OwnedBy f.1.userID f.2
  dumps : ∀ r ∈ s.inUse, OwnedBy r.userID (s.dumpAt (dumpPathFor cfg.dumpDir r.id))
  paths : ∀ r ∈ s.inUse, ∀ r' ∈ s.inUse,
    dumpPathFor cfg.dumpDir r.id = dumpPathFor cfg.dumpDir r'.id → r.userID = r'.userID

theorem init_owned (cfg : ServerConfig) (dumps : List Char → Option (List OutByte)) :
    (Server.init cfg dumps).Owned cfg where
  sent := by simp [Server.Private, Server.init]
  honest := by simp [Server.init]
  conns := by simp [Server.init]
  fanout := by simp [Server.init]
  dumps := by simp [mem_inUse, Server.init]
  paths := by simp [mem_inUse, Server.init]

theorem mem_readAll_append {r : RollingFile OutByte} {p : List OutByte} {b : OutByte}
    (hb : b ∈ (r.append p).readAll) : b ∈ r.readAll ∨ b ∈ p := by
  by_cases hp : p = []
  · subst hp
    left
    simpa [RollingFile.append] using hb
  · rw [readAll_append r p hp, newest] at hb
    exact List.mem_append.mp (List.mem_of_mem_drop hb)

theorem rolling_readAll (cfg : ServerConfig) (s : Server) (r : SessionRef) :
    (s.rolling cfg r).readAll = s.dumpAt (dumpPathFor cfg.dumpDir r.id) := by
  simp [Server.rolling, RollingFile.readAll, Server.dumpAt]

theorem dumpAt_setDump (cfg : ServerConfig) (s : Server) (r : SessionRef)
    (file : RollingFile OutByte) (path : List Char) :
    (s.setDump cfg r file).dumpAt path =
      if path = dumpPathFor cfg.dumpDir r.id then file.readAll else s.dumpAt path := by
  unfold Server.setDump Server.dumpAt RollingFile.readAll
  by_cases hpath : path = dumpPathFor cfg.dumpDir r.id
  · subst hpath
    simp
  · simp [hpath]

/-- Nothing is added to any dump and nothing new comes into use. -/
theorem Server.Owned.frame {cfg : ServerConfig} {s t : Server} (h : s.Owned cfg)
    (hsent : t.Private) (hhonest : ∀ th ∈ t.threads, th.Honest)
    (hconns : ∀ c ∈ t.conns, c.2.userID = c.1) (hfanout : ∀ f ∈ t.fanout, f ∈ s.fanout)
    (hdumps : ∀ path, ∀ b ∈ t.dumpAt path, b ∈ s.dumpAt path)
    (huse : ∀ r ∈ t.inUse, r ∈ s.inUse) : t.Owned cfg where
  sent := hsent
  honest := hhonest
  conns := hconns
  fanout := fun f hf => h.fanout f (hfanout f hf)
  dumps := fun r hr b hb => h.dumps r (huse r hr) b (hdumps _ b hb)
  paths := fun r hr r' hr' => h.paths r (huse r hr) r' (huse r' hr')

theorem Server.Owned.advance {cfg : ServerConfig} {s u : Server} {th : Thread}
    {next : List Thread} (h : s.Owned cfg) (hthreads : u.threads = s.threads)
    (hsent : u.Private) (hhub : ∀ id r, u.hub.get id = some r → r ∈ s.inUse)
    (hconns : ∀ c ∈ u.conns, c.2.userID = c.1) (hfanout : ∀ f ∈ u.fanout, f ∈ s.fanout)
    (hdumps : ∀ path, ∀ b ∈ u.dumpAt path, b ∈ s.dumpAt path)
    (hgo : ∀ n ∈ next, n.Honest ∧ ∀ r, n.uses = some r → r ∈ s.inUse) :
    Server.Owned cfg { u with threads := next ++ u.threads.erase th } := by
  refine h.frame hsent ?_ hconns hfanout hdumps ?_
  · intro n hn
    obtain hn | hn := List.mem_append.mp hn
    · exact (hgo n hn).1
    · exact h.honest n (hthreads ▸ List.mem_of_mem_erase hn)
  · intro r hr
    obtain ⟨n, hn, huses⟩ | ⟨id, hget⟩ := mem_inUse.mp hr
    · obtain hn | hn := List.mem_append.mp hn
      · exact (hgo n hn).2 r huses
      · exact mem_inUse.mpr (.inl ⟨n, hthreads ▸ List.mem_of_mem_erase hn, huses⟩)
    · exact hhub id r hget

/-- A snapshot goes to the owner of its session. -/
theorem Server.Owned.sendSnapshot {cfg : ServerConfig} {s : Server} (h : s.Owned cfg)
    {userID : ℤ} {r : SessionRef} (hr : r ∈ s.inUse) (hown : r.userID = userID) :
    (s.sendSnapshot cfg userID r).Private := by
  unfold Server.sendSnapshot
  simp only
  split_ifs with hempty
  · exact h.sent
  · intro m hm
    obtain hm | hm := List.mem_append.mp hm
    · exact h.sent m hm
    · obtain rfl := List.mem_singleton.mp hm
      rw [rolling_readAll, ← hown]
      exact h.dumps r hr

theorem sendSnapshot_keeps (cfg : ServerConfig) (s : Server) (userID : ℤ) (r : SessionRef) :
    ∃ sent, s.sendSnapshot cfg userID r = { s with sent := sent } := by
  unfold Server.sendSnapshot
  simp only
  split_ifs
  · exact ⟨s.sent, rfl⟩
  · exact ⟨_, rfl⟩

/-- A thread that sends a snapshot and goes on. -/
theorem Server.Owned.reply {cfg : ServerConfig} {s : Server} {th : Thread} {next : List Thread}
    (h : s.Owned cfg) (hmem : th ∈ s.threads) {userID : ℤ} {r : SessionRef}
    (huses : th.uses = some r) (hown : th.Honest → r.userID = userID)
    (hgo : ∀ n ∈ next, n = .pump userID r) :
    Server.Owned cfg
      { s.sendSnapshot cfg userID r with threads := next ++ s.threads.erase th } := by
  have hr : r ∈ s.inUse := mem_inUse.mpr (.inl ⟨th, hmem, huses⟩)
  have howner := hown (h.honest th hmem)
  have hsent := h.sendSnapshot hr howner
  obtain ⟨sent, heq⟩ := sendSnapshot_keeps cfg s userID r
  rw [heq] at hsent ⊢
  refine Server.Owned.advance (u := { s with sent := sent }) h rfl hsent ?_ h.conns
    (fun _ => id) (fun _ _ => id) ?_
  · exact fun id q hq => mem_inUse.mpr (.inr ⟨id, hq⟩)
  · intro n hn
    obtain rfl := hgo n hn
    refine ⟨howner, ?_⟩
    rintro q ⟨⟩
    exact hr

theorem killPty_sent (cfg : ServerConfig) (s : Server) (r : SessionRef) :
    (s.killPty cfg r).sent = s.sent ∧ (s.killPty cfg r).conns = s.conns ∧
      (s.killPty cfg r).fanout = s.fanout := by
  unfold Server.killPty
  split_ifs <;> exact ⟨rfl, rfl, rfl⟩

/-- Killing a session only takes bytes away. -/
theorem mem_dumpAt_killPty {cfg : ServerConfig} {s : Server} {r : SessionRef}
    {path : List Char} {b : OutByte} (hb : b ∈ (s.killPty cfg r).dumpAt path) :
    b ∈ s.dumpAt path := by
  unfold Server.killPty at hb
  split_ifs at hb with hclosed
  · exact hb
  · change b ∈ (s.setDump cfg r (s.rolling cfg r).remove).dumpAt path at hb
    rw [dumpAt_setDump] at hb
    split_ifs at hb with hpath
    · simp [RollingFile.readAll, RollingFile.remove] at hb
    · exact hb

theorem Server.Owned.start {cfg : ServerConfig} {s : Server} (h : s.Owned cfg) {userID : ℤ}
    {id : String} (hown : StartsOwn cfg s (.advance (.start userID id) .ok)) :
    Server.Owned cfg
      { s with
        next := s.next + 1
        running := ⟨s.next, id, userID⟩ :: s.running
        threads := [.register userID ⟨s.next, id, userID⟩, .wait ⟨s.next, id, userID⟩,
          .readLoop ⟨s.next, id, userID⟩, .fanoutLoop ⟨s.next, id, userID⟩] ++
            s.threads.erase (.start userID id) } := by
  obtain ⟨hclean, hpath⟩ := hown
  set new : SessionRef := ⟨s.next, id, userID⟩ with hnew
  have hthreads : ∀ th ∈ [Thread.register userID new, .wait new, .readLoop new,
      .fanoutLoop new] ++ s.threads.erase (.start userID id),
        th ∈ s.threads ∨ th.Honest ∧ ∀ r, th.uses = some r → r = new := by
    intro th hmem
    obtain hmem | hmem := List.mem_append.mp hmem
    · right
      simp only [List.mem_cons, List.not_mem_nil, or_false] at hmem
      obtain rfl | rfl | rfl | rfl := hmem <;> simp [Thread.Honest, Thread.uses, hnew, eq_comm]
    · exact .inl (List.mem_of_mem_erase hmem)
  have huse : ∀ r ∈ Server.inUse { s with
      next := s.next + 1
      running := new :: s.running
      threads := [.register userID new, .wait new, .readLoop new, .fanoutLoop new] ++
        s.threads.erase (.start userID id) }, r = new ∨ r ∈ s.inUse := by
    intro r hr
    obtain ⟨th, hmem, huses⟩ | hget := mem_inUse.mp hr
    · obtain hold | ⟨-, hnewer⟩ := hthreads th hmem
      · exact .inr (mem_inUse.mpr (.inl ⟨th, hold, huses⟩))
      · exact .inl (hnewer r huses)
    · exact .inr (mem_inUse.mpr (.inr hget))
  refine ⟨h.sent, ?_, h.conns, h.fanout, ?_, ?_⟩
  · intro th hmem
    obtain hold | ⟨hhonest, -⟩ := hthreads th hmem
    · exact h.honest th hold
    · exact hhonest
  · intro r hr b hb v hv
    obtain rfl | hr := huse r hr
    · obtain hnone | hsome := hclean b hb
      · rw [hnone] at hv
        cases hv
      · rw [hsome] at hv
        exact (Option.some.inj hv).symm
    · exact h.dumps r hr b hb v hv
  · intro r hr r' hr' hsame
    obtain rfl | hr := huse r hr
    · obtain rfl | hr' := huse r' hr'
      · rfl
      · exact (hpath r' hr' hsame.symm).symm
    · obtain rfl | hr' := huse r' hr'
      · exact hpath r hr hsame
      · exact h.paths r hr r' hr' hsame

/-- A session's own output in its dump. -/
theorem Server.Owned.append {cfg : ServerConfig} {s : Server} (h : s.Owned cfg)
    {r : SessionRef} {data : List OutByte} (hmem : .append r data ∈ s.threads) :
    Server.Owned cfg { s.appendOutput cfg r data with
      threads := [.readLoop r] ++ s.threads.erase (.append r data) } := by
  have hr : r ∈ s.inUse := mem_inUse.mpr (.inl ⟨_, hmem, rfl⟩)
  have hdata : OwnedBy r.userID data := h.honest _ hmem
  obtain ⟨fanout, heq, hfanout⟩ : ∃ fanout, s.appendOutput cfg r data =
      { s.setDump cfg r ((s.rolling cfg r).append data) with fanout := fanout } ∧
        ∀ f ∈ fanout, f ∈ s.fanout ∨ f = (r, data) := by
    unfold Server.appendOutput
    simp only
    split_ifs
    · refine ⟨_, rfl, ?_⟩
      intro f hf
      exact (List.mem_append.mp hf).imp_right List.mem_singleton.mp
    · exact ⟨_, rfl, fun f hf => .inl hf⟩
  have huse : ∀ q ∈ Server.inUse { s with
      threads := [.readLoop r] ++ s.threads.erase (.append r data) }, q ∈ s.inUse := by
    intro q hq
    obtain ⟨n, hn, huses⟩ | hget := mem_inUse.mp hq
    · obtain hn | hn := List.mem_append.mp hn
      · obtain rfl := List.mem_singleton.mp hn
        obtain rfl := Option.some.inj huses
        exact hr
      · exact mem_inUse.mpr (.inl ⟨n, List.mem_of_mem_erase hn, huses⟩)
    · exact mem_inUse.mpr (.inr hget)
  rw [heq]
  refine ⟨h.sent, ?_, h.conns, ?_, ?_, ?_⟩
  · intro n hn
    obtain hn | hn := List.mem_append.mp hn
    · obtain rfl := List.mem_singleton.mp hn
      trivial
    · exact h.honest n (List.mem_of_mem_erase hn)
  · intro f hf
    obtain hf | rfl := hfanout f hf
    · exact h.fanout f hf
    · exact hdata
  · intro q hq b hb
    change b ∈ (s.setDump cfg r ((s.rolling cfg r).append data)).dumpAt _ at hb
    rw [dumpAt_setDump] at hb
    split_ifs at hb with hpath
    · obtain hb | hb := mem_readAll_append hb
      · rw [rolling_readAll, ← hpath] at hb
        exact h.dumps q (huse q hq) b hb
      · rw [h.paths q (huse q hq) r hr hpath]
        exact hdata b hb
    · exact h.dumps q (huse q hq) b hb
  · intro q hq q' hq'
    exact h.paths q (huse q hq) q' (huse q' hq')

theorem Server.Owned.broadcast {cfg : ServerConfig} {s t : Server} (h : s.Owned cfg)
    {r : SessionRef} (ht : s.broadcast r = some t) :
    Server.Owned cfg { t with
      threads := [.fanoutLoop r] ++ s.threads.erase (.fanoutLoop r) } := by
  obtain ⟨chunk, hfind, rfl⟩ := Option.map_eq_some_iff.mp ht
  have hchunk : chunk.1 = r := by simpa using List.find?_some hfind
  have hdata := h.fanout chunk (List.mem_of_find?_eq_some hfind)
  refine h.advance rfl ?_ ?_ h.conns (fun _ => List.mem_of_mem_erase) (fun _ _ => id) ?_
  · intro m hm
    obtain hm | hm := List.mem_append.mp hm
    · exact h.sent m hm
    · obtain ⟨c, hc, rfl⟩ := List.mem_map.mp hm
      obtain ⟨hc, hcr⟩ := List.mem_filter.mp hc
      have hcr : c.2 = r := by simpa using hcr
      rw [← h.conns c hc, hcr, ← hchunk]
      exact hdata
  · exact fun id q hq => mem_inUse.mpr (.inr ⟨id, hq⟩)
  · simp [Thread.Honest, Thread.uses]

/-- One section that starts nothing, or starts it where the dump is the owner's. -/
theorem Server.Owned.took {cfg : ServerConfig} {s u : Server} {th : Thread}
    {next : List Thread} (h : s.Owned cfg) (hmem : th ∈ s.threads)
    (hown : ∀ userID id, th = .start userID id → next ≠ [] →
      StartsOwn cfg s (.advance (.start userID id) .ok))
    (htook : Took cfg s th u next) :
    Server.Owned cfg { u with threads := next ++ s.threads.erase th } := by
  have hreg : ∀ id r, s.hub.get id = some r → r ∈ s.inUse :=
    fun id r hr => mem_inUse.mpr (.inr ⟨id, hr⟩)
  have huses : ∀ r, th.uses = some r → r ∈ s.inUse :=
    fun r hr => mem_inUse.mpr (.inl ⟨th, hmem, hr⟩)
  have hhonest := h.honest th hmem
  have hremoved : ∀ (i id : String) (r : SessionRef), (s.hub.unregister i).get id = some r →
      r ∈ s.inUse := by
    intro i id r hr
    rw [get_unregister] at hr
    split_ifs at hr
    exact hreg id r hr
  cases htook with
  | quit hquit => exact h.advance rfl h.sent hreg h.conns (fun _ => id) (fun _ _ => id) (by simp)
  | found hget hownr =>
      refine h.advance rfl h.sent hreg h.conns (fun _ => id) (fun _ _ => id) ?_
      simpa [Thread.Honest, Thread.uses] using ⟨hownr, hreg _ _ hget⟩
  | missing =>
      refine h.advance rfl h.sent hreg h.conns (fun _ => id) (fun _ _ => id) ?_
      simp [Thread.Honest, Thread.uses]
  | create =>
      refine h.advance rfl h.sent hreg h.conns (fun _ => id) (fun _ _ => id) ?_
      simp [Thread.Honest, Thread.uses]
  | start userID id => exact h.start (hown userID id rfl (by simp))
  | register userID r =>
      refine h.advance rfl h.sent ?_ h.conns (fun _ => id) (fun _ _ => id) ?_
      · intro id q hq
        rw [get_register] at hq
        split_ifs at hq
        · exact Option.some.inj hq ▸ huses r rfl
        · exact hreg id q hq
      · simpa [Thread.Honest, Thread.uses] using ⟨hhonest, huses r rfl⟩
  | attach userID r =>
      refine h.advance rfl h.sent hreg ?_ (fun _ => id) (fun _ _ => id) ?_
      · intro c hc
        obtain rfl | hc := List.mem_cons.mp hc
        · exact hhonest
        · exact h.conns c hc
      · simpa [Thread.Honest, Thread.uses] using ⟨hhonest, huses r rfl⟩
  | snapshot userID r => exact h.reply hmem rfl id (by simp)
  | replay userID r => exact h.reply hmem rfl id (by simp)
  | detach ht =>
      exact h.advance rfl h.sent hreg (fun c hc => h.conns c (List.mem_of_mem_erase hc))
        (fun _ => id) (fun _ _ => id) (by simp)
  | allowed hget hownr =>
      refine h.advance rfl h.sent hreg h.conns (fun _ => id) (fun _ _ => id) ?_
      simpa [Thread.Honest, Thread.uses] using ⟨hownr, hreg _ _ hget⟩
  | reply userID r => exact h.reply hmem rfl id (by simp)
  | kill hget =>
      refine h.advance rfl h.sent hreg h.conns (fun _ => id) (fun _ _ => id) ?_
      simp [Thread.Honest, Thread.uses]
  | killSession r =>
      obtain ⟨hsent, hconns, hfanout⟩ := killPty_sent cfg s r
      rw [← killPty_threads cfg s r]
      refine h.advance (killPty_threads cfg s r) ?_ ?_ ?_ ?_ ?_ ?_
      · rw [Server.Private, hsent]
        exact h.sent
      · rw [killPty_hub]
        exact hreg
      · rw [hconns]
        exact h.conns
      · rw [hfanout]
        exact fun _ => id
      · exact fun _ _ => mem_dumpAt_killPty
      · simp [Thread.Honest, Thread.uses]
  | unregister r =>
      exact h.advance rfl h.sent (hremoved r.id) h.conns (fun _ => id) (fun _ _ => id) (by simp)
  | wait hended =>
      refine h.advance rfl h.sent (hremoved _) h.conns (fun _ => id) (fun _ _ => id) ?_
      simp [Thread.Honest, Thread.uses]
  | finish r =>
      obtain ⟨hsent, hconns, hfanout⟩ :=
        killPty_sent cfg { s with conns := s.conns.filter (·.2 ≠ r) } r
      have hthreads : (Server.killPty cfg { s with conns := s.conns.filter (·.2 ≠ r) } r).threads =
          s.threads := killPty_threads _ _ _
      have hhub : (Server.killPty cfg { s with conns := s.conns.filter (·.2 ≠ r) } r).hub =
          s.hub := killPty_hub _ _ _
      have hdumps : ∀ path, ∀ b ∈ (Server.killPty cfg
          { s with conns := s.conns.filter (·.2 ≠ r) } r).dumpAt path, b ∈ s.dumpAt path :=
        fun _ _ => mem_dumpAt_killPty
      generalize Server.killPty cfg { s with conns := s.conns.filter (·.2 ≠ r) } r = u at *
      rw [← hthreads]
      refine h.advance hthreads ?_ ?_ ?_ ?_ hdumps (by simp)
      · rw [Server.Private, hsent]
        exact h.sent
      · rw [hhub]
        exact hreg
      · rw [hconns]
        exact fun c hc => h.conns c (List.mem_of_mem_filter hc)
      · rw [hfanout]
        exact fun _ => id
  | readLoop hopen hdata =>
      refine h.advance rfl h.sent hreg h.conns (fun _ => id) (fun _ _ => id) ?_
      intro n hn
      obtain rfl := List.mem_singleton.mp hn
      refine ⟨?_, fun q hq => Option.some.inj hq ▸ huses _ rfl⟩
      intro b hb v hv
      obtain ⟨x, -, rfl⟩ := List.mem_map.mp hb
      exact (Option.some.inj hv).symm
  | append r data => exact h.append hmem
  | broadcast ht => exact h.broadcast ht

theorem Server.Owned.step {cfg : ServerConfig} {s t : Server} {a : ServerAction}
    (h : s.Owned cfg) (hown : StartsOwn cfg s a) (ht : serverStep cfg s a = some t) :
    t.Owned cfg := by
  cases a with
  | call th =>
      simp only [serverStep] at ht
      split_ifs at ht with hentry
      obtain rfl := Option.some.inj ht
      refine h.frame h.sent ?_ h.conns (fun _ => id) (fun _ _ => id) ?_
      · intro n hn
        obtain rfl | hn := List.mem_cons.mp hn
        · cases n <;> simp_all [Thread.entry, Thread.Honest]
        · exact h.honest n hn
      · intro r hr
        obtain ⟨n, hn, huses⟩ | hget := mem_inUse.mp hr
        · obtain rfl | hn := List.mem_cons.mp hn
          · cases n <;> simp_all [Thread.entry, Thread.uses]
          · exact mem_inUse.mpr (.inl ⟨n, hn, huses⟩)
        · exact mem_inUse.mpr (.inr hget)
  | advance th env =>
      simp only [serverStep] at ht
      split_ifs at ht with hmem
      obtain ⟨out, hout, rfl⟩ := Option.map_eq_some_iff.mp ht
      refine h.took hmem ?_ (took_of_sectionOf hout)
      rintro userID id rfl hgo
      cases env with
      | ok => exact hown
      | fails =>
          simp only [Server.sectionOf, Option.some.injEq] at hout
          subst hout
          exact absurd rfl hgo
      | newID | output => simp [Server.sectionOf] at hout
  | exit r =>
      simp only [serverStep] at ht
      split_ifs at ht with hrun
      obtain rfl := Option.some.inj ht
      exact h.frame h.sent h.honest h.conns (fun _ => id) (fun _ _ => id) (fun _ => id)
  | restart =>
      simp only [serverStep, Option.some.injEq] at ht
      subst ht
      refine h.frame h.sent ?_ ?_ ?_ (fun _ _ => id) ?_
      · simp [Server.init]
      · simp [Server.init]
      · simp [Server.init]
      · simp [mem_inUse, Server.init]

/-- In every run in which shells are started only where no other user's output
lies or is still to come, no client is ever sent another user's output. -/
theorem output_stays_with_owner (cfg : ServerConfig)
    (dumps : List Char → Option (List OutByte)) (as : List ServerAction)
    (h : Guarded (serverStep cfg) (StartsOwn cfg) (Server.init cfg dumps) as) :
    Along (serverStep cfg) Server.Private (Server.init cfg dumps) as := by
  have howned : Along (serverStep cfg) (Server.Owned cfg) (Server.init cfg dumps) as :=
    along_of_guarded (fun s a t hs hg ht => hs.step hg ht) (init_owned cfg dumps) h
  exact howned.mono fun s hs => hs.sent

/-- A user's session writes a byte, the server is restarted, and a client opens
the same id. -/
def reopenedBy (userID : ℤ) : List ServerAction :=
  [.call (.attachOrCreate 1 "a"), .advance (.attachOrCreate 1 "a") .ok,
    .advance (.create 1 "a") (.newID "x"), .advance (.start 1 "a") .ok,
    .advance (.register 1 ⟨0, "a", 1⟩) .ok, .advance (.readLoop ⟨0, "a", 1⟩) (.output [36]),
    .advance (.append ⟨0, "a", 1⟩ [⟨36, some 1⟩]) .ok, .restart,
    .call (.attachOrCreate userID "a"), .advance (.attachOrCreate userID "a") .ok,
    .advance (.create userID "a") (.newID "y"), .advance (.start userID "a") .ok,
    .advance (.register userID ⟨1, "a", userID⟩) .ok,
    .advance (.attach userID ⟨1, "a", userID⟩) .ok,
    .advance (.snapshot userID ⟨1, "a", userID⟩) .ok]

theorem output_stays_when_reopened_by_owner :
    Along (serverStep demoConfig) Server.Private (Server.init demoConfig fun _ => none)
      (reopenedBy 1) :=
  output_stays_with_owner _ _ _ (by decide)

/-- The restored dump of user 1 is sent to user 2. -/
theorem restored_dump_reaches_other_user :
    ∃ s, run (serverStep demoConfig) (Server.init demoConfig fun _ => none) (reopenedBy 2) =
        some s ∧ s.sent = [(2, [⟨36, some 1⟩])] ∧ ¬ s.Private := by
  refine ⟨_, rfl, ?_, ?_⟩
  · decide
  · intro hprivate
    exact absurd (hprivate (2, [⟨36, some 1⟩]) (by decide) ⟨36, some 1⟩ (by decide) 1 rfl)
      (by decide)

end GoSite.Terminal
