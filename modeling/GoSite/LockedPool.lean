import GoSite.GuardedRuns
import GoSite.PluginPrograms

/-!
# Clients and their locks

Each operation works under the lock of its plugin, from `TryAcquire` to the deferred
`Release`. What it keeps of each of its calls is a contract that may rely on the others to
leave the rows of the plugin alone, and in a pool of clients they do.
-/
namespace GoSite.Plugin
open Interleaving GuardedRuns

/-- The rows of the plugin are the same. -/
def SameRows (pluginID : String) (w w' : World) : Prop :=
  ∀ k : Key, k.1 = pluginID → w'.registry.find k.1 k.2 = w.registry.find k.1 k.2

theorem SameRows.trans {pluginID : String} {w w' w'' : World} (h : SameRows pluginID w w')
    (h' : SameRows pluginID w' w'') : SameRows pluginID w w'' :=
  fun k hk => (h' k hk).trans (h k hk)

theorem SameRows.stateOf {pluginID : String} {w w' : World} (h : SameRows pluginID w w')
    {key : Key} (hkey : key.1 = pluginID) : w'.stateOf key = w.stateOf key := by
  rw [World.stateOf, h key hkey, World.stateOf]

/-- What an operation is to keep of each call it makes under a plugin's lock, as long as the
answers are `calm`: it leaves the rows of the other plugins alone and gives the lock back
with its last call. It begins in a world that is `ready`, with a program that is `apt`. -/
structure LockContract where
  calm : (c : NamedCall) → c.Reply → Prop
  good : String → World → Option String → (c : NamedCall) → (c.Reply → Steps Outcome) → Prop
  ready : String → World → Prop
  apt : Steps Outcome → Prop
  frame : ∀ {pluginID w fault c next}, good pluginID w fault c next →
    ∀ k : Key, k.1 ≠ pluginID →
      (w.answer fault c).1.registry.find k.1 k.2 = w.registry.find k.1 k.2
  lock : ∀ {pluginID w fault c next}, good pluginID w fault c next →
    (c.call = .release pluginID ∧ ∃ a, next (w.answer fault c).2 = .done a) ∨
      (w.answer fault c).1.locks = w.locks ∧ ∀ a, next (w.answer fault c).2 ≠ .done a

/-- The contract of the operations on one plugin. -/
def LockContract.of (K : LockContract) (pluginID : String) :
    Contract World (Option String) NamedCall NamedCall.Reply Outcome where
  rely := SameRows pluginID
  refl _ _ _ := rfl
  trans := SameRows.trans
  calm := K.calm
  good := K.good pluginID

/-- What is left of an operation that holds the lock. -/
structure Under (K : LockContract) (pluginID : String) (p : Steps Outcome) (w : World) :
    Prop where
  busy : ∀ a, p ≠ .done a
  apt : K.apt p
  holds : p.Keeps World.answer (K.of pluginID) w

/-- A program that does nothing, or takes the lock of a plugin and works under it. -/
inductive Enters (K : LockContract) : Steps Outcome → Prop where
  | returned (a : Outcome) : Enters K (.done a)
  | locks (pluginID : String) (next : Bool → Steps Outcome) (refused : Outcome)
      (hrefused : next false = .done refused)
      (hnext : ∀ w, K.ready pluginID w → Under K pluginID (next true) w) :
      Enters K (.call ⟨.other, .tryAcquire pluginID⟩ next)

section
variable {ι : Type} [DecidableEq ι]

/-- The plugin service and its clients. -/
abbrev PluginPool (ι : Type) := Pool World ι NamedCall NamedCall.Reply Outcome

/-- A client that has nothing to do begins an operation, or makes its next call. -/
inductive PluginAction (ι : Type) where
  | start (client : ι) (r : OperationRequest)
  | call (client : ι) (fault : Option String)

def poolStep (I : Installer) (s : PluginPool ι) : PluginAction ι → Option (PluginPool ι)
  | .start client r => s.start client (r.program I)
  | .call client fault => s.call World.answer client fault

def idlePool (w : World) : PluginPool ι := ⟨w, fun _ => .done .idle⟩

/-- An operation that is under way in a world. -/
structure Inside (K : LockContract) (pluginID : String) (p : Steps Outcome) (w : World) :
    Prop where
  busy : ∀ a, p ≠ .done a
  locked : pluginID ∈ w.locks
  holds : p.Keeps World.answer (K.of pluginID) w

/-- Each client is outside, or holds the lock of a plugin of its own. -/
structure Owned (K : LockContract) (s : PluginPool ι) (owner : ι → Option String) : Prop where
  outside : ∀ i, owner i = none → Enters K (s.threads i)
  inside : ∀ i pluginID, owner i = some pluginID → Inside K pluginID (s.threads i) s.shared
  distinct : ∀ i j pluginID, owner i = some pluginID → owner j = some pluginID → i = j

/-- What becomes of a client with its next call: it is refused, it takes the lock of a
plugin, or it goes on under its lock until it gives the lock back. -/
inductive Advance (K : LockContract) (s t : PluginPool ι) (owner : ι → Option String) (i : ι)
    (fault : Option String) : Prop where
  | refused (howner : owner i = none) (hshared : t.shared = s.shared)
      (hdone : ∃ a, t.threads i = .done a) (howned : Owned K t owner)
  | acquired (howner : owner i = none) (pluginID : String) (hfree : pluginID ∉ s.shared.locks)
      (hshared : t.shared = { s.shared with locks := pluginID :: s.shared.locks })
      (hapt : K.apt (t.threads i))
      (howned : Owned K t (Function.update owner i (some pluginID)))
  | proceeded (pluginID : String) (c : NamedCall) (next : c.Reply → Steps Outcome)
      (howner : owner i = some pluginID) (hthread : s.threads i = .call c next)
      (hgood : K.good pluginID s.shared fault c next)
      (hworld : t.shared = (s.shared.answer fault c).1)
      (hself : t.threads i = next (s.shared.answer fault c).2) (own : Option String)
      (hown : c.call = .release pluginID ∧ own = none ∨ own = some pluginID)
      (howned : Owned K t (Function.update owner i own))

variable {K : LockContract} {I : Installer} {s t : PluginPool ι} {owner : ι → Option String} {i : ι}

omit [DecidableEq ι] in
theorem owned_idle (K : LockContract) (w : World) :
    Owned K (idlePool w : PluginPool ι) fun _ => none where
  outside _ _ := .returned _
  inside _ _ h := by cases h
  distinct _ _ _ h := by cases h

/-- One client moves on, and the others find their rows and their locks as they were. -/
theorem Owned.update (h : Owned K s owner) {own : Option String}
    (hothers : ∀ j ≠ i, t.threads j = s.threads j)
    (houtside : own = none → Enters K (t.threads i))
    (hinside : ∀ pluginID, own = some pluginID →
      Inside K pluginID (t.threads i) t.shared ∧ ∀ j ≠ i, owner j ≠ some pluginID)
    (hrows : ∀ j ≠ i, ∀ pluginID, owner j = some pluginID →
      SameRows pluginID s.shared t.shared ∧ pluginID ∈ t.shared.locks) :
    Owned K t (Function.update owner i own) where
  outside j hj := by
    by_cases hji : j = i
    · subst hji
      exact houtside (by simpa using hj)
    · rw [Function.update_of_ne hji] at hj
      rw [hothers j hji]
      exact h.outside j hj
  inside j pluginID hj := by
    by_cases hji : j = i
    · subst hji
      exact (hinside pluginID (by simpa using hj)).1
    · rw [Function.update_of_ne hji] at hj
      rw [hothers j hji]
      obtain ⟨hbusy, -, hholds⟩ := h.inside j pluginID hj
      obtain ⟨hsame, hlock⟩ := hrows j hji pluginID hj
      exact ⟨hbusy, hlock, hholds.stable hsame⟩
  distinct j k pluginID hj hk := by
    by_cases hji : j = i <;> by_cases hki : k = i
    · rw [hji, hki]
    · rw [hji, Function.update_self] at hj
      rw [Function.update_of_ne hki] at hk
      exact absurd hk ((hinside pluginID hj).2 k hki)
    · rw [hki, Function.update_self] at hk
      rw [Function.update_of_ne hji] at hj
      exact absurd hj ((hinside pluginID hk).2 j hji)
    · rw [Function.update_of_ne hji] at hj
      rw [Function.update_of_ne hki] at hk
      exact h.distinct j k pluginID hj hk

omit [DecidableEq ι] in
/-- A client that has nothing to do is no owner of a lock. -/
theorem Owned.owner_done (h : Owned K s owner) {a : Outcome} (hi : s.threads i = .done a) :
    owner i = none := by
  cases howner : owner i with
  | none => rfl
  | some pluginID => exact absurd hi ((h.inside i pluginID howner).busy a)

omit [DecidableEq ι] in
/-- A world with the same registry and the same locks serves the owners as well. -/
theorem Owned.rows (h : Owned K s owner) {u : World} (hreg : u.registry = s.shared.registry)
    (hlocks : s.shared.locks ⊆ u.locks) (j : ι) (pluginID : String)
    (hj : owner j = some pluginID) : SameRows pluginID s.shared u ∧ pluginID ∈ u.locks :=
  ⟨fun _ _ => by rw [hreg], hlocks (h.inside j pluginID hj).locked⟩

/-- A client begins. -/
theorem Owned.start (h : Owned K s owner) {p : Steps Outcome} (hp : Enters K p)
    (ht : s.start i p = some t) : Owned K t owner ∧ owner i = none ∧ t.shared = s.shared ∧
      t.threads = Function.update s.threads i p := by
  obtain ⟨⟨a, hdone⟩, hshared, hthreads⟩ := Pool.start_eq_some ht
  have howner := h.owner_done hdone
  have howned : Owned K t (Function.update owner i none) := by
    refine h.update (fun j hj => by rw [hthreads, Function.update_of_ne hj]) (fun _ => ?_) nofun
      fun j _ => h.rows (by rw [hshared]) (by rw [hshared]; exact List.Subset.refl _) j
    rw [hthreads, Function.update_self]
    exact hp
  rw [Function.update_eq_self_iff.mpr howner.symm] at howned
  exact ⟨howned, howner, hshared, hthreads⟩

/-- A client that is not under way takes the lock of its plugin, or is refused. -/
theorem Owned.enter (h : Owned K s owner)
    (hready : ∀ pluginID ∉ s.shared.locks, ∀ u, SameRows pluginID s.shared u → K.ready pluginID u)
    {fault : Option String} (howner : owner i = none)
    (ht : s.call World.answer i fault = some t) : Advance K s t owner i fault := by
  obtain ⟨c, next, hthread, hshared, hthreads⟩ := Pool.call_eq_some ht
  have hothers : ∀ j ≠ i, t.threads j = s.threads j := fun j hj => by
    rw [hthreads, Function.update_of_ne hj]
  have hself : t.threads i = next (s.shared.answer fault c).2 := by
    rw [hthreads, Function.update_self]
  have houtside := h.outside i howner
  rw [hthread] at houtside
  cases houtside with
  | locks pluginID next refused hrefused hnext =>
  by_cases hlock : pluginID ∈ s.shared.locks
  · have hanswer : s.shared.answer fault ⟨.other, .tryAcquire pluginID⟩ = (s.shared, false) :=
      if_pos hlock
    rw [hanswer] at hself hshared
    have hself : t.threads i = .done refused := hself.trans hrefused
    have hshared : t.shared = s.shared := hshared
    have hsame : Function.update owner i none = owner :=
      Function.update_eq_self_iff.mpr howner.symm
    refine .refused howner hshared ⟨refused, hself⟩ ?_
    rw [← hsame]
    refine h.update hothers (fun _ => ?_) nofun
      fun j _ => h.rows (by rw [hshared]) (by rw [hshared]; exact List.Subset.refl _) j
    rw [hself]
    exact .returned refused
  · have hanswer : s.shared.answer fault ⟨.other, .tryAcquire pluginID⟩ =
        ({ s.shared with locks := pluginID :: s.shared.locks }, true) := if_neg hlock
    rw [hanswer] at hself hshared
    have hself : t.threads i = next true := hself
    have hshared : t.shared = { s.shared with locks := pluginID :: s.shared.locks } := hshared
    have hunder := hnext t.shared (hready pluginID hlock t.shared fun _ _ => by rw [hshared])
    refine .acquired howner pluginID hlock hshared (hself ▸ hunder.apt)
      (h.update hothers nofun ?_ fun j _ => h.rows (by rw [hshared]) ?_ j)
    · rintro id ⟨⟩
      rw [hself]
      refine ⟨⟨hunder.busy, ?_, hunder.holds⟩, fun j _ hj => hlock (h.inside j pluginID hj).locked⟩
      rw [hshared]
      exact List.mem_cons_self
    · rw [hshared]
      exact List.subset_cons_self _ _

/-- A call of a client under way. -/
theorem Owned.proceed (h : Owned K s owner) {fault : Option String} {pluginID : String}
    (howner : owner i = some pluginID)
    (hcalm : ∀ c next, s.threads i = .call c next → K.calm c (s.shared.answer fault c).2)
    (ht : s.call World.answer i fault = some t) : Advance K s t owner i fault := by
  obtain ⟨c, next, hthread, hshared, hthreads⟩ := Pool.call_eq_some ht
  have hothers : ∀ j ≠ i, t.threads j = s.threads j := fun j hj => by
    rw [hthreads, Function.update_of_ne hj]
  have hself : t.threads i = next (s.shared.answer fault c).2 := by
    rw [hthreads, Function.update_self]
  obtain ⟨-, hlocked, hholds⟩ := h.inside i pluginID howner
  rw [hthread] at hholds
  obtain ⟨hgood, hrest⟩ := hholds.call (hcalm c next hthread)
  have hne : ∀ j ≠ i, ∀ id, owner j = some id → id ≠ pluginID := by
    rintro j hj id hid rfl
    exact hj (h.distinct j i id hid howner)
  have hrows : ∀ j ≠ i, ∀ id, owner j = some id → SameRows id s.shared t.shared := by
    intro j hj id hid k hk
    rw [hshared]
    exact K.frame hgood k (hk ▸ hne j hj id hid)
  obtain ⟨hrelease, a, ha⟩ | ⟨hlocks, hbusy⟩ := K.lock hgood
  · have hlocks : t.shared.locks = s.shared.locks.erase pluginID := by
      obtain ⟨site, call⟩ := c
      obtain rfl : call = .release pluginID := hrelease
      rw [hshared]
      rfl
    refine .proceeded pluginID c next howner hthread hgood hshared hself none
      (.inl ⟨hrelease, rfl⟩) (h.update hothers (fun _ => ?_) nofun fun j hj id hid => ?_)
    · rw [hself, ha]
      exact .returned a
    · refine ⟨hrows j hj id hid, ?_⟩
      rw [hlocks, List.mem_erase_of_ne (hne j hj id hid)]
      exact (h.inside j id hid).locked
  · refine .proceeded pluginID c next howner hthread hgood hshared hself (some pluginID)
      (.inr rfl) (h.update hothers nofun ?_ fun j hj id hid => ?_)
    · rintro id ⟨⟩
      rw [hself, hshared]
      refine ⟨⟨hbusy, ?_, hrest⟩, fun j hj hid => hj (h.distinct j i _ hid howner)⟩
      rw [hlocks]
      exact hlocked
    · refine ⟨hrows j hj id hid, ?_⟩
      rw [hshared, hlocks]
      exact (h.inside j id hid).locked

end

end GoSite.Plugin
