import Mathlib

/-!
# Programs that interleave

A program makes calls of a component that it shares with other programs, and each
call is one step. Nothing is known of the shared state between two calls but what
the other programs keep. A program `Keeps` a contract when each of its calls meets
it, in every state that the others may have led to.
-/
namespace GoSite.Interleaving

/-- A program returns, or makes a call and goes on with the answer. -/
inductive Program (C : Type) (R : C → Type) (α : Type) where
  | done (a : α)
  | call (c : C) (next : R c → Program C R α)

section
variable {C : Type} {R : C → Type} {α β : Type}

@[grind] def Program.bind : Program C R α → (α → Program C R β) → Program C R β
  | .done a, f => f a
  | .call c next, f => .call c fun r => (next r).bind f

instance : Monad (Program C R) where
  pure := .done
  bind := .bind

/-- The program of one call. -/
def request (c : C) : Program C R (R c) := .call c .done

@[simp] theorem pure_eq (a : α) : (pure a : Program C R α) = .done a := rfl

@[simp] theorem done_bind (a : α) (f : α → Program C R β) : (.done a >>= f) = f a := rfl

@[simp] theorem call_bind (c : C) (next : R c → Program C R α) (f : α → Program C R β) :
    (.call c next >>= f) = .call c fun r => next r >>= f := rfl

@[simp] theorem request_bind (c : C) (f : R c → Program C R β) :
    (request c >>= f) = .call c f := rfl

theorem bind_assoc {γ : Type} (p : Program C R α) (f : α → Program C R β)
    (g : β → Program C R γ) : (p >>= f >>= g) = p >>= fun a => f a >>= g := by
  induction p with
  | done a => rfl
  | call c next ih => exact congrArg (Program.call c) (funext fun r => ih r)

/-- Whether every path without a failing answer comes to a call of the kind. -/
@[grind] def Program.Ahead (goal : C → Prop) (calm : (c : C) → R c → Prop) : Program C R α → Prop
  | .done _ => False
  | .call c next => goal c ∨ ∀ r, calm c r → (next r).Ahead goal calm

/-- Every call of the program, with what follows it, has the property. -/
@[grind] def Program.Every (P : (c : C) → (R c → Program C R α) → Prop) : Program C R α → Prop
  | .done _ => True
  | .call c next => P c next ∧ ∀ r, (next r).Every P

/-- Where no answer fails, the program returns what it should. -/
@[grind] def Program.Ends (goal : α → Prop) (calm : (c : C) → R c → Prop) : Program C R α → Prop
  | .done a => goal a
  | .call c next => ∀ r, calm c r → (next r).Ends goal calm

theorem Program.Ends.bind {goal : β → Prop} {calm : (c : C) → R c → Prop} {p : Program C R α}
    {f : α → Program C R β} (h : p.Ends (fun a => (f a).Ends goal calm) calm) :
    (p >>= f).Ends goal calm := by
  induction p with
  | done a => exact h
  | call c next ih => exact fun r hr => ih r (h r hr)

theorem Program.Ends.of_all {goal : α → Prop} {calm : (c : C) → R c → Prop} (p : Program C R α)
    (h : ∀ a, goal a) : p.Ends goal calm := by
  induction p with
  | done a => exact h a
  | call c next ih => exact fun r _ => ih r

theorem Program.Every.mono {P Q : (c : C) → (R c → Program C R α) → Prop} {p : Program C R α}
    (h : p.Every P) (hPQ : ∀ c next, P c next → Q c next) : p.Every Q := by
  induction p with
  | done a => trivial
  | call c next ih => exact ⟨hPQ c next h.1, fun r => ih r (h.2 r)⟩

theorem Program.Every.bind {P : (c : C) → (R c → Program C R β) → Prop} {p : Program C R α}
    {f : α → Program C R β} (h : p.Every fun c next => P c fun r => next r >>= f)
    (hf : ∀ a, (f a).Every P) : (p >>= f).Every P := by
  induction p with
  | done a => exact hf a
  | call c next ih => exact ⟨h.1, fun r => ih r (h.2 r)⟩

end

section
variable {σ ε C : Type} {R : C → Type} {α β : Type}

/-- The state after a call, and the answer. `ε` is what happens to the call. -/
abbrev Handler (σ ε C : Type) (R : C → Type) := σ → ε → (c : C) → σ × R c

/-- A program that runs alone. -/
@[grind] def Program.alone (answer : σ → (c : C) → σ × R c) : Program C R α → σ → σ × α
  | .done a, s => (s, a)
  | .call c next, s => (next (answer s c).2).alone answer (answer s c).1

@[simp] theorem alone_done (answer : σ → (c : C) → σ × R c) (a : α) (s : σ) :
    (Program.done a).alone answer s = (s, a) := rfl

@[simp] theorem alone_call (answer : σ → (c : C) → σ × R c) (c : C) (next : R c → Program C R α)
    (s : σ) :
    (Program.call c next).alone answer s = (next (answer s c).2).alone answer (answer s c).1 := rfl

theorem alone_bind (answer : σ → (c : C) → σ × R c) (p : Program C R α) (f : α → Program C R β)
    (s : σ) :
    (p >>= f).alone answer s = (f (p.alone answer s).2).alone answer (p.alone answer s).1 := by
  induction p generalizing s with
  | done a => rfl
  | call c next ih => exact ih _ _

/-- What a program is to keep of each of its calls as long as the answers are `calm`, and
what it may rely on the others to keep. -/
structure Contract (σ ε C : Type) (R : C → Type) (α : Type) where
  rely : σ → σ → Prop
  refl : ∀ s, rely s s
  trans : ∀ {s t u}, rely s t → rely t u → rely s u
  calm : (c : C) → R c → Prop
  good : σ → ε → (c : C) → (R c → Program C R α) → Prop

/-- From the state on, each call of the program is good. -/
@[grind]
def Program.Keeps (handle : Handler σ ε C R) (K : Contract σ ε C R α) : Program C R α → σ → Prop
  | .done _, _ => True
  | .call c next, s => ∀ t, K.rely s t → ∀ e, K.calm c (handle t e c).2 →
      K.good t e c next ∧ (next (handle t e c).2).Keeps handle K (handle t e c).1

/-- What the others do leaves the contract kept. -/
theorem Program.Keeps.stable {handle : Handler σ ε C R} {K : Contract σ ε C R α}
    {p : Program C R α} {s t : σ} (h : p.Keeps handle K s) (hst : K.rely s t) :
    p.Keeps handle K t := by
  cases p with
  | done a => trivial
  | call c next => exact fun u hu => h u (K.trans hst hu)

/-- A call is good, and what is left of the program keeps the contract. -/
theorem Program.Keeps.call {handle : Handler σ ε C R} {K : Contract σ ε C R α} {c : C}
    {next : R c → Program C R α} {s : σ} (h : (Program.call c next).Keeps handle K s) {e : ε}
    (hcalm : K.calm c (handle s e c).2) :
    K.good s e c next ∧ (next (handle s e c).2).Keeps handle K (handle s e c).1 :=
  h s (K.refl s) e hcalm

end

section
variable {σ ε ι C : Type} {R : C → Type} {α : Type} [DecidableEq ι]

/-- The shared state and what is left of each program. -/
structure Pool (σ ι C : Type) (R : C → Type) (α : Type) where
  shared : σ
  threads : ι → Program C R α

/-- The next call of a program. -/
def Pool.call (handle : Handler σ ε C R) (s : Pool σ ι C R α) (i : ι) (e : ε) :
    Option (Pool σ ι C R α) :=
  match s.threads i with
  | .done _ => none
  | .call c next =>
      some ⟨(handle s.shared e c).1, Function.update s.threads i (next (handle s.shared e c).2)⟩

/-- A program begins where the one before it has returned. -/
def Pool.start (s : Pool σ ι C R α) (i : ι) (p : Program C R α) : Option (Pool σ ι C R α) :=
  match s.threads i with
  | .done _ => some { s with threads := Function.update s.threads i p }
  | .call _ _ => none

theorem Pool.call_eq_some {handle : Handler σ ε C R} {s t : Pool σ ι C R α} {i : ι} {e : ε}
    (h : s.call handle i e = some t) :
    ∃ c next, s.threads i = .call c next ∧ t.shared = (handle s.shared e c).1 ∧
      t.threads = Function.update s.threads i (next (handle s.shared e c).2) := by
  unfold Pool.call at h
  cases hthread : s.threads i with
  | done a => simp [hthread] at h
  | call c next =>
      simp only [hthread, Option.some.injEq] at h
      subst h
      exact ⟨c, next, rfl, rfl, rfl⟩

theorem Pool.start_eq_some {s t : Pool σ ι C R α} {i : ι} {p : Program C R α}
    (h : s.start i p = some t) :
    (∃ a, s.threads i = .done a) ∧ t.shared = s.shared ∧
      t.threads = Function.update s.threads i p := by
  unfold Pool.start at h
  cases hthread : s.threads i with
  | call c next => simp [hthread] at h
  | done a =>
      simp only [hthread, Option.some.injEq] at h
      subst h
      exact ⟨⟨a, rfl⟩, rfl, rfl⟩

end

section
variable {σ ε C : Type} {R : C → Type} {α β : Type}

/-- Each call of the program keeps the invariant, from every state that has it, and the
program returns what it should. -/
@[grind]
def Program.Safe (handle : Handler σ ε C R) (inv : σ → Prop) (post : α → Prop) :
    Program C R α → Prop
  | .done a => post a
  | .call c next => ∀ s, inv s → ∀ e, inv (handle s e c).1 ∧
      (next (handle s e c).2).Safe handle inv post

theorem Program.Safe.bind {handle : Handler σ ε C R} {inv : σ → Prop} {post : α → Prop}
    {post' : β → Prop} {p : Program C R α} {f : α → Program C R β} (h : p.Safe handle inv post)
    (hf : ∀ a, post a → (f a).Safe handle inv post') : (p >>= f).Safe handle inv post' := by
  induction p with
  | done a => exact hf a h
  | call c next ih => exact fun s hs e => ⟨(h s hs e).1, ih _ (h s hs e).2⟩

end

section
variable {σ ε ι C : Type} {R : C → Type} {α : Type} [DecidableEq ι]

/-- The invariant holds, and every program keeps it. -/
structure Pool.Safe (handle : Handler σ ε C R) (inv : σ → Prop) (s : Pool σ ι C R α) : Prop where
  holds : inv s.shared
  threads : ∀ i, (s.threads i).Safe handle inv fun _ => True

theorem Pool.Safe.call {handle : Handler σ ε C R} {inv : σ → Prop} {s t : Pool σ ι C R α} {i : ι}
    {e : ε} (h : s.Safe handle inv) (ht : s.call handle i e = some t) : t.Safe handle inv := by
  obtain ⟨c, next, hthread, hshared, hthreads⟩ := Pool.call_eq_some ht
  have hsafe := h.threads i
  rw [hthread] at hsafe
  obtain ⟨hinv, hnext⟩ := hsafe s.shared h.holds e
  refine ⟨by rw [hshared]; exact hinv, fun j => ?_⟩
  rw [hthreads]
  by_cases hj : j = i
  · subst hj
    rw [Function.update_self]
    exact hnext
  · rw [Function.update_of_ne hj]
    exact h.threads j

theorem Pool.Safe.start {handle : Handler σ ε C R} {inv : σ → Prop} {s t : Pool σ ι C R α} {i : ι}
    {p : Program C R α} (h : s.Safe handle inv) (hp : p.Safe handle inv fun _ => True)
    (ht : s.start i p = some t) : t.Safe handle inv := by
  obtain ⟨-, hshared, hthreads⟩ := Pool.start_eq_some ht
  refine ⟨by rw [hshared]; exact h.holds, fun j => ?_⟩
  rw [hthreads]
  by_cases hj : j = i
  · subst hj
    rw [Function.update_self]
    exact hp
  · rw [Function.update_of_ne hj]
    exact h.threads j

end

section
variable {σ ε ι C : Type} {R : C → Type} {α : Type}

/-- What a program may rely on of the others, the invariant of the shared state, and
what the program is to keep: of each call, and of what it returns. -/
structure Protocol (σ C : Type) (R : C → Type) (α : Type) where
  rely : σ → σ → Prop
  refl : ∀ s, rely s s
  trans : ∀ {s t u}, rely s t → rely t u → rely s u
  inv : σ → Prop
  good : σ → (c : C) → (R c → Program C R α) → Prop
  post : σ → α → Prop
  post_stable : ∀ {s t a}, rely s t → post s a → post t a

/-- From the state on, each call of the program is good, and so is its result. -/
@[grind]
def Program.Meets (handle : Handler σ ε C R) (K : Protocol σ C R α) : Program C R α → σ → Prop
  | .done a, s => K.post s a
  | .call c next, s => ∀ t, K.rely s t → K.inv t →
      K.good t c next ∧ ∀ e, (next (handle t e c).2).Meets handle K (handle t e c).1

theorem Program.Meets.stable {handle : Handler σ ε C R} {K : Protocol σ C R α}
    {p : Program C R α} {s t : σ} (h : p.Meets handle K s) (hst : K.rely s t) :
    p.Meets handle K t := by
  cases p with
  | done a => exact K.post_stable hst h
  | call c next => exact fun u hu => h u (K.trans hst hu)

/-- The shared state has the invariant, and each program keeps the protocol. -/
structure Pool.Follows (handle : Handler σ ε C R) (K : Protocol σ C R α)
    (s : Pool σ ι C R α) : Prop where
  inv : K.inv s.shared
  meets : ∀ i, (s.threads i).Meets handle K s.shared

variable [DecidableEq ι]

/-- One call, where good calls keep the invariant and what the others rely on. -/
theorem Pool.Follows.call {handle : Handler σ ε C R} {K : Protocol σ C R α}
    {s t : Pool σ ι C R α} {i : ι} {e : ε} (h : s.Follows handle K)
    (hstep : ∀ s c next e, K.inv s → K.good s c next →
      K.inv (handle s e c).1 ∧ K.rely s (handle s e c).1)
    (ht : s.call handle i e = some t) :
    t.Follows handle K ∧ ∃ c next, s.threads i = .call c next ∧ K.good s.shared c next ∧
      t.shared = (handle s.shared e c).1 ∧
      t.threads = Function.update s.threads i (next (handle s.shared e c).2) := by
  obtain ⟨c, next, hthread, hshared, hthreads⟩ := Pool.call_eq_some ht
  have hmeets := h.meets i
  rw [hthread] at hmeets
  obtain ⟨hgood, hnext⟩ := hmeets s.shared (K.refl s.shared) h.inv
  obtain ⟨hinv, hrely⟩ := hstep s.shared c next e h.inv hgood
  refine ⟨⟨?_, fun j => ?_⟩, c, next, hthread, hgood, hshared, hthreads⟩
  · rw [hshared]
    exact hinv
  · rw [hshared, hthreads]
    by_cases hj : j = i
    · subst hj
      rw [Function.update_self]
      exact hnext e
    · rw [Function.update_of_ne hj]
      exact (h.meets j).stable hrely

theorem Pool.Follows.start {handle : Handler σ ε C R} {K : Protocol σ C R α}
    {s t : Pool σ ι C R α} {i : ι} {p : Program C R α} (h : s.Follows handle K)
    (hp : p.Meets handle K s.shared) (ht : s.start i p = some t) : t.Follows handle K := by
  obtain ⟨-, hshared, hthreads⟩ := Pool.start_eq_some ht
  refine ⟨?_, fun j => ?_⟩
  · rw [hshared]
    exact h.inv
  · rw [hshared, hthreads]
    by_cases hj : j = i
    · subst hj
      rw [Function.update_self]
      exact hp
    · rw [Function.update_of_ne hj]
      exact h.meets j

end

section
variable {σ ε C : Type} {R : C → Type} {α β : Type}

/-- The rules of a system in which a call alone says whether it is allowed. -/
structure Rules (σ C : Type) where
  rely : σ → σ → Prop
  refl : ∀ s, rely s s
  trans : ∀ {s t u}, rely s t → rely t u → rely s u
  inv : σ → Prop
  allowed : σ → C → Prop

/-- The protocol of the programs that keep the rules and return what they should. -/
def Rules.protocol (K : Rules σ C) (post : σ → α → Prop) : Protocol σ C R α where
  rely := K.rely
  refl := K.refl
  trans := K.trans
  inv := K.inv
  good s c _ := K.allowed s c
  post s a := ∀ t, K.rely s t → post t a
  post_stable hst h t ht := h t (K.trans hst ht)

/-- One call after another. -/
theorem Program.Meets.bind {handle : Handler σ ε C R} {K : Rules σ C} {post : σ → β → Prop}
    {p : Program C R α} {f : α → Program C R β} {s : σ}
    (h : p.Meets handle
      (K.protocol fun t a => (f a).Meets handle (K.protocol post) t) s) :
    (p >>= f).Meets handle (K.protocol post) s := by
  induction p generalizing s with
  | done a => exact h s (K.refl s)
  | call c next ih =>
      intro t hst hinv
      obtain ⟨hallowed, hnext⟩ := h t hst hinv
      exact ⟨hallowed, fun e => ih _ (hnext e)⟩

theorem Program.Meets.mono {handle : Handler σ ε C R} {K : Rules σ C} {post post' : σ → α → Prop}
    {p : Program C R α} {s : σ} (h : p.Meets handle (K.protocol post) s)
    (hpost : ∀ t a, post t a → post' t a) : p.Meets handle (K.protocol post') s := by
  induction p generalizing s with
  | done a => exact fun t ht => hpost t a (h t ht)
  | call c next ih =>
      intro t hst hinv
      obtain ⟨hallowed, hnext⟩ := h t hst hinv
      exact ⟨hallowed, fun e => ih _ (hnext e)⟩

end

end GoSite.Interleaving
