import GoSite.TerminalServer

/-!
# The terminal registry under concurrent calls

`unregister` goes by the id, and it is called late: by the exit callback, and by
`Kill` after its lookup. A session is outstanding while it is registered or a
goroutine has still to register or unregister it. As long as no shell is started
under the id of an outstanding session, every call finds its own session.
-/
namespace GoSite.Terminal
open GuardedRuns

/-- The session a goroutine is about to register or to unregister. -/
def Thread.outstanding : Thread → Option SessionRef
  | .register _ r | .killSession r | .unregister r | .wait r => some r
  | _ => none

/-- The session a goroutine works on. -/
def Thread.session : Thread → Option SessionRef
  | .register _ r | .killSession r | .unregister r | .wait r | .attach _ r | .snapshot _ r
  | .pump _ r | .reply _ r | .finish r | .readLoop r | .append r _ | .fanoutLoop r => some r
  | _ => none

def Server.outstanding (s : Server) : List SessionRef :=
  s.threads.filterMap Thread.outstanding ++ s.hub.registered

/-- The two maps agree, and a running session is registered under its id from the
moment its `Create` has registered it. -/
structure Server.Consistent (s : Server) : Prop where
  agrees : s.hub.Agrees
  registered : ∀ r ∈ s.running, (∀ userID, .register userID r ∉ s.threads) →
    s.hub.get r.id = some r

/-- The session a step unregisters. -/
def ServerAction.removes : ServerAction → Option SessionRef
  | .advance (.unregister r) _ | .advance (.wait r) _ => some r
  | _ => none

/-- The step removes no registered session but the one it is about. -/
def KeepsOthers (cfg : ServerConfig) (s : Server) (a : ServerAction) : Prop :=
  a ≠ .restart → ∀ t, serverStep cfg s a = some t →
    ∀ id r, s.hub.get id = some r → a.removes ≠ some r → t.hub.get id = some r

/-- No shell is started under the id of an outstanding session. -/
def StartsFresh (s : Server) : ServerAction → Prop
  | .advance (.start _ id) .ok => ∀ r ∈ s.outstanding, r.id ≠ id
  | _ => True

instance (s : Server) (a : ServerAction) : Decidable (StartsFresh s a) := by
  cases a with
  | advance t e => cases t <;> cases e <;> unfold StartsFresh <;> infer_instance
  | _ => exact .isTrue trivial

theorem mem_outstanding {s : Server} {r : SessionRef} :
    r ∈ s.outstanding ↔
      (∃ t ∈ s.threads, t.outstanding = some r) ∨ ∃ id, s.hub.get id = some r := by
  rw [Server.outstanding, List.mem_append, List.mem_filterMap, mem_registered]

/-- What holds as long as every start is fresh. -/
structure Server.Orderly (s : Server) : Prop where
  agrees : s.hub.Agrees
  unique : ∀ r ∈ s.outstanding, ∀ r' ∈ s.outstanding, r.id = r'.id → r = r'
  registered : ∀ r ∈ s.running,
    (∃ userID, .register userID r ∈ s.threads) ∨ s.hub.get r.id = some r
  ended : ∀ r, .unregister r ∈ s.threads → r ∉ s.running
  closed_ended : ∀ r ∈ s.closed, r ∉ s.running
  thread_old : ∀ t ∈ s.threads, ∀ r, t.session = some r → r.addr < s.next
  hub_old : ∀ id r, s.hub.get id = some r → r.addr < s.next
  closed_old : ∀ r ∈ s.closed, r.addr < s.next

theorem Server.Orderly.consistent {s : Server} (h : s.Orderly) : s.Consistent where
  agrees := h.agrees
  registered := by
    intro r hr hnone
    obtain ⟨userID, hreg⟩ | hget := h.registered r hr
    · exact absurd hreg (hnone userID)
    · exact hget

theorem init_orderly (cfg : ServerConfig) (dumps : List Char → Option (List OutByte)) :
    (Server.init cfg dumps).Orderly where
  agrees := newHub_agrees _
  unique := by simp [mem_outstanding, Server.init]
  registered := by simp [Server.init]
  ended := by simp [Server.init]
  closed_ended := by simp [Server.init]
  thread_old := by simp [Server.init]
  hub_old := by simp [Server.init]
  closed_old := by simp [Server.init]

theorem Server.Orderly.get_of_outstanding {s : Server} (h : s.Orderly) {r r' : SessionRef}
    (hr : r ∈ s.outstanding) (hget : s.hub.get r.id = some r') : r' = r := by
  have hid := h.agrees.id_eq _ _ hget
  exact h.unique r' (mem_outstanding.mpr (.inr ⟨_, hget⟩)) r hr hid

/-- A step that leaves the registry alone and starts nothing keeps order. -/
theorem Server.Orderly.frame {s t : Server} (h : s.Orderly) (hhub : t.hub = s.hub)
    (hnext : t.next = s.next) (hrun : ∀ r ∈ t.running, r ∈ s.running)
    (hclosed : ∀ r ∈ t.closed, r ∈ s.closed ∨ r ∉ t.running ∧ r.addr < s.next)
    (hregister : ∀ userID r, .register userID r ∈ s.threads → .register userID r ∈ t.threads)
    (hthreads : ∀ th ∈ t.threads, th ∈ s.threads ∨
      (∀ r, th.session = some r → r.addr < s.next) ∧
        (∀ r, th.outstanding = some r → r ∈ s.outstanding) ∧
        ∀ r, th = .unregister r → r ∉ t.running) : t.Orderly where
  agrees := hhub ▸ h.agrees
  unique := by
    have hsub : ∀ r ∈ t.outstanding, r ∈ s.outstanding := by
      intro r hr
      obtain ⟨th, hth, hout⟩ | hget := mem_outstanding.mp hr
      · obtain hold | ⟨-, hnew, -⟩ := hthreads th hth
        · exact mem_outstanding.mpr (.inl ⟨th, hold, hout⟩)
        · exact hnew r hout
      · exact mem_outstanding.mpr (.inr (hhub ▸ hget))
    intro r hr r' hr'
    exact h.unique r (hsub r hr) r' (hsub r' hr')
  registered := by
    intro r hr
    rw [hhub]
    exact (h.registered r (hrun r hr)).imp_left fun ⟨u, hu⟩ => ⟨u, hregister u r hu⟩
  ended := by
    intro r hth hr
    obtain hold | ⟨-, -, hnew⟩ := hthreads _ hth
    · exact h.ended r hold (hrun r hr)
    · exact hnew r rfl hr
  closed_ended := by
    intro r hr hrunning
    obtain hold | hnew := hclosed r hr
    · exact h.closed_ended r hold (hrun r hrunning)
    · exact hnew.1 hrunning
  thread_old := by
    intro th hth r hsession
    rw [hnext]
    obtain hold | ⟨hnew, -, -⟩ := hthreads th hth
    · exact h.thread_old th hold r hsession
    · exact hnew r hsession
  hub_old := by
    rw [hhub, hnext]
    exact h.hub_old
  closed_old := by
    intro r hr
    rw [hnext]
    obtain hold | hnew := hclosed r hr
    · exact h.closed_old r hold
    · exact hnew.2

theorem mem_erase_register {th : Thread} {threads next : List Thread} {userID : ℤ}
    {r : SessionRef} (hth : ∀ u q, th ≠ .register u q) (h : .register userID r ∈ threads) :
    .register userID r ∈ next ++ threads.erase th :=
  List.mem_append_right _ ((List.mem_erase_of_ne (hth userID r).symm).mpr h)

/-- A thread goes on without touching the registry. -/
theorem Server.Orderly.advance {s u : Server} {th : Thread} {next : List Thread} (h : s.Orderly)
    (hhub : u.hub = s.hub) (hnext : u.next = s.next) (hrun : ∀ r ∈ u.running, r ∈ s.running)
    (hclosed : ∀ r ∈ u.closed, r ∈ s.closed ∨ r ∉ u.running ∧ r.addr < s.next)
    (hth : ∀ userID q, th ≠ .register userID q)
    (hgo : ∀ n ∈ next, (∀ r, n.session = some r → r.addr < s.next) ∧
      (∀ r, n.outstanding = some r → r ∈ s.outstanding) ∧
        ∀ r, n = .unregister r → r ∉ u.running) :
    Server.Orderly { u with threads := next ++ s.threads.erase th } := by
  refine h.frame hhub hnext hrun hclosed (fun _ _ => mem_erase_register hth) ?_
  intro n hn
  obtain hn | hn := List.mem_append.mp hn
  · exact .inr (hgo n hn)
  · exact .inl (List.mem_of_mem_erase hn)

theorem Server.Orderly.start {s : Server} (h : s.Orderly) {userID : ℤ} {id : String}
    (hfresh : ∀ r ∈ s.outstanding, r.id ≠ id) :
    Server.Orderly
      { s with
        next := s.next + 1
        running := ⟨s.next, id, userID⟩ :: s.running
        threads := [.register userID ⟨s.next, id, userID⟩, .wait ⟨s.next, id, userID⟩,
          .readLoop ⟨s.next, id, userID⟩, .fanoutLoop ⟨s.next, id, userID⟩] ++
            s.threads.erase (.start userID id) } := by
  set new : SessionRef := ⟨s.next, id, userID⟩ with hnew
  have hth : ∀ th ∈ [Thread.register userID new, .wait new, .readLoop new, .fanoutLoop new] ++
      s.threads.erase (.start userID id), th ∈ s.threads ∨
        (∀ r, th.session = some r → r = new) ∧ (∀ r, th.outstanding = some r → r = new) ∧
          ∀ r, th ≠ .unregister r := by
    intro th hmem
    obtain hmem | hmem := List.mem_append.mp hmem
    · right
      simp only [List.mem_cons, List.not_mem_nil, or_false] at hmem
      obtain rfl | rfl | rfl | rfl := hmem <;> simp [Thread.session, Thread.outstanding, eq_comm]
    · exact .inl (List.mem_of_mem_erase hmem)
  have hout : ∀ r, r ∈ Server.outstanding { s with
      next := s.next + 1
      running := new :: s.running
      threads := [.register userID new, .wait new, .readLoop new, .fanoutLoop new] ++
        s.threads.erase (.start userID id) } → r = new ∨ r ∈ s.outstanding := by
    intro r hr
    obtain ⟨th, hmem, hr⟩ | hget := mem_outstanding.mp hr
    · obtain hold | ⟨-, hout, -⟩ := hth th hmem
      · exact .inr (mem_outstanding.mpr (.inl ⟨th, hold, hr⟩))
      · exact .inl (hout r hr)
    · exact .inr (mem_outstanding.mpr (.inr hget))
  have hold : ∀ r : SessionRef, r.addr < s.next → r ≠ new := by
    rintro r hr rfl
    exact lt_irrefl _ hr
  refine ⟨h.agrees, ?_, ?_, ?_, ?_, ?_, ?_, ?_⟩
  · intro r hr r' hr' hid
    obtain rfl | hr := hout r hr
    · obtain rfl | hr' := hout r' hr'
      · rfl
      · exact absurd hid.symm (hfresh r' hr')
    · obtain rfl | hr' := hout r' hr'
      · exact absurd hid (hfresh r hr)
      · exact h.unique r hr r' hr' hid
  · intro r hr
    obtain rfl | hr := List.mem_cons.mp hr
    · exact .inl ⟨userID, by simp⟩
    · refine (h.registered r hr).imp_left fun ⟨u, hu⟩ => ⟨u, ?_⟩
      exact mem_erase_register (by simp) hu
  · intro r hr hrun
    obtain hmem | ⟨-, -, hne⟩ := hth _ hr
    · obtain rfl | hrun := List.mem_cons.mp hrun
      · exact hold new (h.thread_old _ hmem new rfl) rfl
      · exact h.ended r hmem hrun
    · exact hne r rfl
  · intro r hr hrun
    obtain rfl | hrun := List.mem_cons.mp hrun
    · exact hold new (h.closed_old new hr) rfl
    · exact h.closed_ended r hr hrun
  · intro th hmem r hr
    obtain hmem | ⟨hnewer, -, -⟩ := hth th hmem
    · exact Nat.lt_succ_of_lt (h.thread_old th hmem r hr)
    · rw [hnewer r hr]
      exact Nat.lt_succ_self _
  · intro id r hget
    exact Nat.lt_succ_of_lt (h.hub_old id r hget)
  · intro r hr
    exact Nat.lt_succ_of_lt (h.closed_old r hr)

theorem Server.Orderly.register {s : Server} (h : s.Orderly) {userID : ℤ} {r : SessionRef}
    (hth : .register userID r ∈ s.threads) :
    Server.Orderly
      { s with
        hub := s.hub.register r
        threads := [.attach userID r] ++ s.threads.erase (.register userID r) } := by
  have hr : r ∈ s.outstanding := mem_outstanding.mpr (.inl ⟨_, hth, rfl⟩)
  have hget : ∀ id q, (s.hub.register r).get id = some q → q = r ∨ s.hub.get id = some q := by
    intro id q hq
    rw [get_register] at hq
    split_ifs at hq
    · exact .inl (Option.some.inj hq).symm
    · exact .inr hq
  have hmem : ∀ th ∈ [.attach userID r] ++ s.threads.erase (.register userID r),
      th = .attach userID r ∨ th ∈ s.threads := by
    intro th hmem
    obtain hmem | hmem := List.mem_append.mp hmem
    · exact .inl (List.mem_singleton.mp hmem)
    · exact .inr (List.mem_of_mem_erase hmem)
  have hsub : ∀ q, q ∈ Server.outstanding { s with
      hub := s.hub.register r
      threads := [.attach userID r] ++ s.threads.erase (.register userID r) } →
        q ∈ s.outstanding := by
    intro q hq
    obtain ⟨th, hq, hout⟩ | ⟨id, hq⟩ := mem_outstanding.mp hq
    · obtain rfl | hq := hmem th hq
      · simp [Thread.outstanding] at hout
      · exact mem_outstanding.mpr (.inl ⟨th, hq, hout⟩)
    · obtain rfl | hq := hget id q hq
      · exact hr
      · exact mem_outstanding.mpr (.inr ⟨id, hq⟩)
  refine ⟨?_, ?_, ?_, ?_, h.closed_ended, ?_, ?_, h.closed_old⟩
  · refine h.agrees.register r ?_
    intro q hq
    rw [h.get_of_outstanding hr hq]
  · intro q hq q' hq'
    exact h.unique q (hsub q hq) q' (hsub q' hq')
  · intro q hq
    by_cases hqr : q = r
    · right
      rw [hqr, get_register, if_pos rfl]
    · obtain ⟨u, hu⟩ | hu := h.registered q hq
      · refine .inl ⟨u, List.mem_append_right _ ((List.mem_erase_of_ne ?_).mpr hu)⟩
        rintro ⟨⟩
        exact hqr rfl
      · right
        have hid : q.id ≠ r.id := by
          intro hid
          rw [hid] at hu
          exact hqr (h.get_of_outstanding hr hu)
        rw [get_register, if_neg hid]
        exact hu
  · intro q hq
    obtain hq | hq := hmem _ hq
    · cases hq
    · exact h.ended q hq
  · intro th hq q hsession
    obtain rfl | hq := hmem th hq
    · simp only [Thread.session, Option.some.injEq] at hsession
      exact hsession ▸ h.thread_old _ hth r rfl
    · exact h.thread_old th hq q hsession
  · intro id q hq
    obtain rfl | hq := hget id q hq
    · exact h.thread_old _ hth q rfl
    · exact h.hub_old id q hq

/-- A removal on behalf of a session that has ended. -/
theorem Server.Orderly.unregister {s : Server} (h : s.Orderly) {th : Thread} {r : SessionRef}
    {next : List Thread} (hmem : th ∈ s.threads) (hout : th.outstanding = some r)
    (hended : r ∉ s.running) (hth : ∀ userID q, th ≠ .register userID q)
    (hgo : ∀ n ∈ next, n = .finish r) :
    Server.Orderly
      { s with hub := s.hub.unregister r.id, threads := next ++ s.threads.erase th } := by
  have hr : r ∈ s.outstanding := mem_outstanding.mpr (.inl ⟨_, hmem, hout⟩)
  have hsession : th.session = some r := by
    cases th <;> simp_all [Thread.session, Thread.outstanding]
  have hget : ∀ id q, (s.hub.unregister r.id).get id = some q → s.hub.get id = some q := by
    intro id q hq
    rw [get_unregister] at hq
    split_ifs at hq
    exact hq
  have hold : ∀ n ∈ next ++ s.threads.erase th, n = .finish r ∨ n ∈ s.threads := by
    intro n hn
    exact (List.mem_append.mp hn).imp (hgo n) List.mem_of_mem_erase
  have hsub : ∀ q, q ∈ Server.outstanding { s with
      hub := s.hub.unregister r.id, threads := next ++ s.threads.erase th } →
        q ∈ s.outstanding := by
    intro q hq
    obtain ⟨n, hn, hout⟩ | ⟨id, hq⟩ := mem_outstanding.mp hq
    · obtain rfl | hn := hold n hn
      · simp [Thread.outstanding] at hout
      · exact mem_outstanding.mpr (.inl ⟨n, hn, hout⟩)
    · exact mem_outstanding.mpr (.inr ⟨id, hget id q hq⟩)
  refine ⟨h.agrees.unregister r.id, ?_, ?_, ?_, h.closed_ended, ?_, ?_, h.closed_old⟩
  · intro q hq q' hq'
    exact h.unique q (hsub q hq) q' (hsub q' hq')
  · intro q hq
    obtain ⟨u, hu⟩ | hu := h.registered q hq
    · exact .inl ⟨u, mem_erase_register hth hu⟩
    · right
      have hid : q.id ≠ r.id := by
        intro hid
        rw [hid] at hu
        exact hended (h.get_of_outstanding hr hu ▸ hq)
      rw [get_unregister, if_neg hid]
      exact hu
  · intro q hq
    obtain hq | hq := hold _ hq
    · cases hq
    · exact h.ended q hq
  · intro n hn q hq
    obtain rfl | hn := hold n hn
    · simp only [Thread.session, Option.some.injEq] at hq
      exact hq ▸ h.thread_old _ hmem r hsession
    · exact h.thread_old n hn q hq
  · intro id q hq
    exact h.hub_old id q (hget id q hq)

theorem sendSnapshot_same (cfg : ServerConfig) (s : Server) (userID : ℤ) (r : SessionRef) :
    (s.sendSnapshot cfg userID r).hub = s.hub ∧ (s.sendSnapshot cfg userID r).next = s.next ∧
      (s.sendSnapshot cfg userID r).running = s.running ∧
        (s.sendSnapshot cfg userID r).closed = s.closed := by
  unfold Server.sendSnapshot
  simp only
  split_ifs <;> exact ⟨rfl, rfl, rfl, rfl⟩

theorem appendOutput_same (cfg : ServerConfig) (s : Server) (r : SessionRef)
    (data : List OutByte) :
    (s.appendOutput cfg r data).hub = s.hub ∧ (s.appendOutput cfg r data).next = s.next ∧
      (s.appendOutput cfg r data).running = s.running ∧
        (s.appendOutput cfg r data).closed = s.closed := by
  unfold Server.appendOutput
  simp only
  split_ifs <;> exact ⟨rfl, rfl, rfl, rfl⟩

theorem broadcast_same {s t : Server} {r : SessionRef} (h : s.broadcast r = some t) :
    t.hub = s.hub ∧ t.next = s.next ∧ t.running = s.running ∧ t.closed = s.closed := by
  obtain ⟨chunk, -, rfl⟩ := Option.map_eq_some_iff.mp h
  exact ⟨rfl, rfl, rfl, rfl⟩

/-- A killed session is not running any more. -/
theorem Server.Orderly.kill {cfg : ServerConfig} {s u : Server} {th : Thread} {r : SessionRef}
    {next : List Thread} (h : s.Orderly) (hmem : th ∈ s.threads) (hsession : th.session = some r)
    (hth : ∀ userID q, th ≠ .register userID q) (hhub : u.hub = s.hub) (hnext : u.next = s.next)
    (hrun : u.running = s.running) (hclosed : u.closed = s.closed)
    (hgo : ∀ n ∈ next, n = .unregister r ∧ r ∈ s.outstanding) :
    Server.Orderly { u.killPty cfg r with threads := next ++ s.threads.erase th } := by
  have hidle : r ∈ u.closed → r ∉ u.running := by
    rw [hrun, hclosed]
    exact h.closed_ended r
  have hold := h.thread_old th hmem r hsession
  refine h.advance ?_ ?_ ?_ ?_ hth ?_
  · rw [killPty_hub, hhub]
  · rw [killPty_next, hnext]
  · intro q hq
    exact hrun ▸ ((mem_killPty_running hidle).mp hq).1
  · intro q hq
    obtain hq | rfl := mem_killPty_closed.mp hq
    · exact .inl (hclosed ▸ hq)
    · exact .inr ⟨fun hq => ((mem_killPty_running hidle).mp hq).2 rfl, hold⟩
  · intro n hn
    obtain ⟨rfl, hr⟩ := hgo n hn
    refine ⟨?_, ?_, ?_⟩
    · rintro q ⟨⟩
      exact hold
    · rintro q ⟨⟩
      exact hr
    · rintro q ⟨⟩ hq
      exact ((mem_killPty_running hidle).mp hq).2 rfl

/-- One section, started in order and fresh, ends in order. -/
theorem Server.Orderly.took {cfg : ServerConfig} {s u : Server} {th : Thread}
    {next : List Thread} (h : s.Orderly) (hmem : th ∈ s.threads)
    (hfresh : ∀ userID id, th = .start userID id → next ≠ [] → ∀ r ∈ s.outstanding, r.id ≠ id)
    (htook : Took cfg s th u next) :
    Server.Orderly { u with threads := next ++ s.threads.erase th } := by
  have hout : ∀ r, th.outstanding = some r → r ∈ s.outstanding :=
    fun r hr => mem_outstanding.mpr (.inl ⟨th, hmem, hr⟩)
  have hold := h.thread_old th hmem
  have hreg : ∀ id r, s.hub.get id = some r → r ∈ s.outstanding :=
    fun id r hr => mem_outstanding.mpr (.inr ⟨id, hr⟩)
  cases htook with
  | quit hquit =>
      refine h.advance rfl rfl (fun _ => id) (fun _ => .inl) ?_ (by simp)
      rintro userID q rfl
      simp [Thread.quits] at hquit
  | found hget hown =>
      refine h.advance rfl rfl (fun _ => id) (fun _ => .inl) (by simp) ?_
      simpa [Thread.session, Thread.outstanding] using h.hub_old _ _ hget
  | missing =>
      refine h.advance rfl rfl (fun _ => id) (fun _ => .inl) (by simp) ?_
      simp [Thread.session, Thread.outstanding]
  | create =>
      refine h.advance rfl rfl (fun _ => id) (fun _ => .inl) (by simp) ?_
      simp [Thread.session, Thread.outstanding]
  | start userID id => exact h.start (hfresh userID id rfl (by simp))
  | register userID r => exact h.register hmem
  | attach userID r =>
      refine h.advance rfl rfl (fun _ => id) (fun _ => .inl) (by simp) ?_
      simpa [Thread.session, Thread.outstanding] using hold
  | snapshot userID r =>
      obtain ⟨hhub, hnext, hrun, hclosed⟩ := sendSnapshot_same cfg s userID r
      refine h.advance hhub hnext (by simp [hrun]) (by simp +contextual [hclosed]) (by simp) ?_
      simpa [Thread.session, Thread.outstanding] using hold
  | replay userID r =>
      obtain ⟨hhub, hnext, hrun, hclosed⟩ := sendSnapshot_same cfg s userID r
      refine h.advance hhub hnext (by simp [hrun]) (by simp +contextual [hclosed]) (by simp) ?_
      simpa [Thread.session, Thread.outstanding] using hold
  | detach ht =>
      refine h.advance rfl rfl (fun _ => id) (fun _ => .inl) ?_ (by simp)
      rintro userID q rfl
      simp at ht
  | allowed hget hown =>
      refine h.advance rfl rfl (fun _ => id) (fun _ => .inl) (by simp) ?_
      simpa [Thread.session, Thread.outstanding] using h.hub_old _ _ hget
  | reply userID r =>
      obtain ⟨hhub, hnext, hrun, hclosed⟩ := sendSnapshot_same cfg s userID r
      exact h.advance hhub hnext (by simp [hrun]) (by simp +contextual [hclosed]) (by simp) (by simp)
  | kill hget =>
      refine h.advance rfl rfl (fun _ => id) (fun _ => .inl) (by simp) ?_
      simpa [Thread.session, Thread.outstanding] using ⟨h.hub_old _ _ hget, hreg _ _ hget⟩
  | killSession r =>
      refine h.kill hmem rfl (by simp) rfl rfl rfl rfl ?_
      simpa using hout r rfl
  | unregister r =>
      exact h.unregister hmem rfl (h.ended r hmem) (by simp) (by simp)
  | wait hended =>
      exact h.unregister hmem rfl hended (by simp) (by simp)
  | finish r => exact h.kill hmem rfl (by simp) rfl rfl rfl rfl (by simp)
  | readLoop hopen hdata =>
      refine h.advance rfl rfl (fun _ => id) (fun _ => .inl) (by simp) ?_
      simpa [Thread.session, Thread.outstanding] using hold
  | append r data =>
      obtain ⟨hhub, hnext, hrun, hclosed⟩ := appendOutput_same cfg s r data
      refine h.advance hhub hnext (by simp [hrun]) (by simp +contextual [hclosed]) (by simp) ?_
      simpa [Thread.session, Thread.outstanding] using hold
  | broadcast ht =>
      obtain ⟨hhub, hnext, hrun, hclosed⟩ := broadcast_same ht
      refine h.advance hhub hnext (by simp [hrun]) (by simp +contextual [hclosed]) (by simp) ?_
      simpa [Thread.session, Thread.outstanding] using hold

/-- A step that starts nothing under an outstanding id keeps order. -/
theorem Server.Orderly.step {cfg : ServerConfig} {s t : Server} {a : ServerAction}
    (h : s.Orderly) (hfresh : StartsFresh s a) (ht : serverStep cfg s a = some t) :
    t.Orderly := by
  cases a with
  | call th =>
      simp only [serverStep] at ht
      split_ifs at ht with hentry
      obtain rfl := Option.some.inj ht
      refine h.frame rfl rfl (fun _ => id) (fun _ => .inl) ?_ ?_
      · exact fun _ _ => List.mem_cons_of_mem _
      · intro n hn
        obtain rfl | hn := List.mem_cons.mp hn
        · right
          cases n <;> simp_all [Thread.entry, Thread.session, Thread.outstanding]
        · exact .inl hn
  | advance th env =>
      simp only [serverStep] at ht
      split_ifs at ht with hmem
      obtain ⟨out, hout, rfl⟩ := Option.map_eq_some_iff.mp ht
      refine h.took hmem ?_ (took_of_sectionOf hout)
      rintro userID id rfl hgo r hr
      cases env with
      | ok => exact hfresh r hr
      | fails =>
          simp only [Server.sectionOf, Option.some.injEq] at hout
          subst hout
          exact absurd rfl hgo
      | newID | output => simp [Server.sectionOf] at hout
  | exit r =>
      simp only [serverStep] at ht
      split_ifs at ht with hrun
      obtain rfl := Option.some.inj ht
      exact h.frame rfl rfl (fun _ => List.mem_of_mem_filter) (fun _ => .inl) (fun _ _ => id)
        (fun _ => .inl)
  | restart =>
      simp only [serverStep, Option.some.injEq] at ht
      subst ht
      have hinit := init_orderly cfg s.dumps
      exact ⟨hinit.agrees, hinit.unique, hinit.registered, hinit.ended, hinit.closed_ended,
        by simp [Server.init], by simp [Server.init], by simp [Server.init]⟩

/-- In order, a removal on behalf of one session never meets another, and a
registration replaces none. -/
theorem Server.Orderly.keepsOthers {cfg : ServerConfig} {s : Server} (h : s.Orderly)
    (a : ServerAction) : KeepsOthers cfg s a := by
  intro hrestart t ht id r hget hne
  cases a with
  | call th =>
      simp only [serverStep] at ht
      split_ifs at ht
      obtain rfl := Option.some.inj ht
      exact hget
  | exit q =>
      simp only [serverStep] at ht
      split_ifs at ht
      obtain rfl := Option.some.inj ht
      exact hget
  | restart => exact absurd rfl hrestart
  | advance th env =>
      simp only [serverStep] at ht
      split_ifs at ht with hmem
      obtain ⟨out, hout, rfl⟩ := Option.map_eq_some_iff.mp ht
      have hmine : ∀ q, th.outstanding = some q → q.id = id → r = q := by
        rintro q hq rfl
        exact h.get_of_outstanding (mem_outstanding.mpr (.inl ⟨th, hmem, hq⟩)) hget
      have hremoved : ∀ q, th.outstanding = some q →
          (ServerAction.advance th env).removes = some q → (s.hub.unregister q.id).get id = some r := by
        intro q hq hremoves
        rw [get_unregister, if_neg]
        · exact hget
        · intro hid
          exact hne (by rw [hremoves, hmine q hq hid.symm])
      have htook := took_of_sectionOf hout
      cases out with
      | mk u next =>
        change u.hub.get id = some r
        change Took cfg s th u next at htook
        cases htook with
        | register userID q =>
            rw [get_register]
            split_ifs with hid
            · rw [hmine q rfl hid.symm]
            · exact hget
        | unregister q => exact hremoved q rfl rfl
        | wait hended => exact hremoved _ rfl rfl
        | snapshot userID q => rwa [(sendSnapshot_same cfg s userID q).1]
        | replay userID q => rwa [(sendSnapshot_same cfg s userID q).1]
        | reply userID q => rwa [(sendSnapshot_same cfg s userID q).1]
        | killSession q => rwa [killPty_hub]
        | finish q => rwa [killPty_hub]
        | append q data => rwa [(appendOutput_same cfg s q data).1]
        | broadcast hb => rwa [(broadcast_same hb).1]
        | _ => exact hget

/-- In every run whose starts are fresh, the registry is consistent in every
state, and no step removes another session than its own. -/
theorem registry_consistent_of_fresh (cfg : ServerConfig)
    (dumps : List Char → Option (List OutByte)) (as : List ServerAction)
    (h : Guarded (serverStep cfg) StartsFresh (Server.init cfg dumps) as) :
    Along (serverStep cfg) Server.Consistent (Server.init cfg dumps) as ∧
      Guarded (serverStep cfg) (KeepsOthers cfg) (Server.init cfg dumps) as := by
  have horder : Along (serverStep cfg) Server.Orderly (Server.init cfg dumps) as :=
    along_of_guarded (fun s a t hs hg ht => hs.step hg ht) (init_orderly cfg dumps) h
  refine ⟨horder.mono fun s hs => hs.consistent, ?_⟩
  exact horder.guarded fun s a hs => hs.keepsOthers a

/-- A session that ends, and another one under the same id. -/
def oneAfterTheOther : List ServerAction :=
  [.call (.attachOrCreate 1 "a"), .advance (.attachOrCreate 1 "a") .ok,
    .advance (.create 1 "a") (.newID "x"), .advance (.start 1 "a") .ok,
    .advance (.register 1 ⟨0, "a", 1⟩) .ok, .exit ⟨0, "a", 1⟩, .advance (.wait ⟨0, "a", 1⟩) .ok,
    .call (.attachOrCreate 2 "a"), .advance (.attachOrCreate 2 "a") .ok,
    .advance (.create 2 "a") (.newID "y"), .advance (.start 2 "a") .ok,
    .advance (.register 2 ⟨1, "a", 2⟩) .ok, .advance (.finish ⟨0, "a", 1⟩) .ok]

theorem registry_consistent_one_after_the_other :
    Along (serverStep demoConfig) Server.Consistent (Server.init demoConfig fun _ => none)
        oneAfterTheOther ∧
      Guarded (serverStep demoConfig) (KeepsOthers demoConfig)
        (Server.init demoConfig fun _ => none) oneAfterTheOther :=
  registry_consistent_of_fresh _ _ _ (by decide)

/-- Two calls with one id, and the shell of the first ends. -/
def oneBesideTheOther : List ServerAction :=
  [.call (.attachOrCreate 1 "a"), .advance (.attachOrCreate 1 "a") .ok,
    .call (.attachOrCreate 1 "a"), .advance (.attachOrCreate 1 "a") .ok,
    .advance (.create 1 "a") (.newID "x"), .advance (.start 1 "a") .ok,
    .advance (.create 1 "a") (.newID "y"), .advance (.start 1 "a") .ok,
    .advance (.register 1 ⟨0, "a", 1⟩) .ok, .advance (.register 1 ⟨1, "a", 1⟩) .ok,
    .exit ⟨0, "a", 1⟩]

/-- The exit callback of the first session unregisters the second, whose shell
is running. -/
theorem late_exit_unregisters_running :
    ∃ s t, run (serverStep demoConfig) (Server.init demoConfig fun _ => none) oneBesideTheOther =
        some s ∧
      serverStep demoConfig s (.advance (.wait ⟨0, "a", 1⟩) .ok) = some t ∧
        ¬ KeepsOthers demoConfig s (.advance (.wait ⟨0, "a", 1⟩) .ok) ∧ ¬ t.Consistent := by
  refine ⟨_, _, rfl, rfl, ?_, ?_⟩
  · intro hkeep
    have hkept := hkeep (by simp) _ rfl "a" ⟨1, "a", 1⟩ rfl (by decide)
    exact absurd hkept (by decide)
  · intro hcons
    have hthreads : ∀ u, ∀ th ∈ [Thread.finish ⟨0, "a", 1⟩, .attach 1 ⟨1, "a", 1⟩,
        .attach 1 ⟨0, "a", 1⟩, .wait ⟨1, "a", 1⟩, .readLoop ⟨1, "a", 1⟩,
        .fanoutLoop ⟨1, "a", 1⟩, .readLoop ⟨0, "a", 1⟩, .fanoutLoop ⟨0, "a", 1⟩],
        th ≠ .register u ⟨1, "a", 1⟩ := by simp
    have hkept := hcons.registered ⟨1, "a", 1⟩ (by decide) (fun u hu => hthreads u _ hu rfl)
    exact absurd hkept (by decide)

end GoSite.Terminal
