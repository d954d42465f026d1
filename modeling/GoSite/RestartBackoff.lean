import GoSite.SupervisorFailures

/-!
# The restart backoff

A failed check that does not disable its version is followed by a wait, whose length
doubles with every attempt up to a bound. The doubling is a product of 64-bit numbers,
and it has wrapped before the bound is looked at.
-/
namespace GoSite.Plugin
open GuardedRuns

/-- The options of `NewHealthSupervisor`. The interval only says when a tick comes. -/
inductive SupervisorOption where
  | interval (d : Int64)
  | maxAttempts (n : Int64)
  | window (d : Int64)
  | backoff (min max : Int64)
  deriving Repr, DecidableEq

/-- An option that is not positive leaves the default. -/
def SupervisorConfig.withOption (cfg : SupervisorConfig) : SupervisorOption → SupervisorConfig
  | .interval _ => cfg
  | .maxAttempts n => if 0 < n.toInt then { cfg with maxAttempts := n.toInt.toNat } else cfg
  | .window d => if 0 < d.toInt then { cfg with window := d.toInt } else cfg
  | .backoff min max =>
      let cfg := if 0 < min.toInt then { cfg with backoffMin := min.toInt } else cfg
      if 0 < max.toInt then { cfg with backoffMax := max.toInt } else cfg

/-- `NewHealthSupervisor`. -/
def newHealthSupervisor (opts : List SupervisorOption) : SupervisorConfig :=
  opts.foldl SupervisorConfig.withOption defaultSupervisor

/-- The durations of the options are positive 64-bit numbers. -/
structure SupervisorConfig.Positive (cfg : SupervisorConfig) : Prop where
  window : 0 < cfg.window
  backoffMin : 0 < cfg.backoffMin ∧ cfg.backoffMin < 2 ^ 63
  backoffMax : 0 < cfg.backoffMax ∧ cfg.backoffMax < 2 ^ 63

/-- In some run the supervisor waits so long at its so many-th attempt to restart a version. -/
def Delays (svc : Service) (cfg : SupervisorConfig) (attempt : ℕ) (delay : ℤ) : Prop :=
  ∃ w actions s p rest f, w.ValidIDs ∧ run (Watched.step svc cfg) (.init w) actions = some s ∧
    s.sup.phase = .waiting p delay rest ∧ s.sup.failures (failureKey p) = some f ∧
    f.attempts = attempt

/-- Every delay is within the bounds, and none is shorter than that of an earlier attempt. -/
structure BacksOff (svc : Service) (cfg : SupervisorConfig) : Prop where
  bounds : ∀ {attempt delay}, Delays svc cfg attempt delay →
    cfg.backoffMin ≤ delay ∧ delay ≤ cfg.backoffMax
  mono : ∀ {attempt attempt' delay delay'}, Delays svc cfg attempt delay →
    Delays svc cfg attempt' delay' → attempt ≤ attempt' → delay ≤ delay'

theorem positive_withOption {cfg : SupervisorConfig} (h : cfg.Positive) (opt : SupervisorOption) :
    (cfg.withOption opt).Positive := by
  cases opt with
  | interval d => exact h
  | maxAttempts n =>
      rw [SupervisorConfig.withOption]
      split_ifs
      · exact ⟨h.window, h.backoffMin, h.backoffMax⟩
      · exact h
  | window d =>
      rw [SupervisorConfig.withOption]
      split_ifs with hd
      · exact ⟨hd, h.backoffMin, h.backoffMax⟩
      · exact h
  | backoff min max =>
      have hmin := min.toInt_lt
      have hmax := max.toInt_lt
      simp only [SupervisorConfig.withOption]
      split_ifs with hmax' hmin' hmin'
      · exact ⟨h.window, ⟨hmin', hmin⟩, ⟨hmax', hmax⟩⟩
      · exact ⟨h.window, h.backoffMin, ⟨hmax', hmax⟩⟩
      · exact ⟨h.window, ⟨hmin', hmin⟩, h.backoffMax⟩
      · exact h

theorem positive_newHealthSupervisor (opts : List SupervisorOption) :
    (newHealthSupervisor opts).Positive := by
  have hfold : ∀ cfg : SupervisorConfig, cfg.Positive →
      (opts.foldl SupervisorConfig.withOption cfg).Positive := by
    induction opts with
    | nil => exact fun _ h => h
    | cons opt opts ih => exact fun cfg h => ih _ (positive_withOption h opt)
  exact hfold _ ⟨by decide, by decide, by decide⟩

/-! ## The product -/

section
variable {cfg : SupervisorConfig}

theorem restartDelay_eq (hcfg : cfg.Positive) {attempt : ℕ} (h : 1 ≤ attempt) :
    restartDelay cfg attempt =
      min ((cfg.backoffMin * 2 ^ (attempt - 1)).bmod (2 ^ 64)) cfg.backoffMax := by
  obtain ⟨hpos, hfits⟩ := hcfg.backoffMin
  have hraw : (if attempt > 1 then
      (cfg.backoffMin * Int.bmod (2 ^ (attempt - 1)) (2 ^ 64)).bmod (2 ^ 64) else cfg.backoffMin) =
      (cfg.backoffMin * 2 ^ (attempt - 1)).bmod (2 ^ 64) := by
    split_ifs with hmany
    · exact Int.mul_bmod_bmod
    · obtain rfl : attempt = 1 := by omega
      rw [Nat.sub_self, pow_zero, mul_one, Int.bmod_eq_of_le_mul_two (by omega) (by omega)]
  simp only [restartDelay, hraw, gt_iff_lt]
  split_ifs with hcap
  · exact (min_eq_right hcap.le).symm
  · exact (min_eq_left (not_lt.mp hcap)).symm

/-- As long as the product fits, the delay is the product or the bound. -/
theorem restartDelay_of_fits (hcfg : cfg.Positive) {attempt : ℕ} (h : 1 ≤ attempt)
    (hfits : cfg.backoffMin * 2 ^ (attempt - 1) < 2 ^ 63) :
    restartDelay cfg attempt = min (cfg.backoffMin * 2 ^ (attempt - 1)) cfg.backoffMax := by
  have hpos := mul_pos hcfg.backoffMin.1 (pow_pos (by decide : (0 : ℤ) < 2) (attempt - 1))
  rw [restartDelay_eq hcfg h, Int.bmod_eq_of_le_mul_two (by omega) (by omega)]

/-- The first product that does not fit is a negative delay. -/
theorem restartDelay_negative (hcfg : cfg.Positive) {n : ℕ}
    (hbefore : cfg.backoffMin * 2 ^ n < 2 ^ 63) (hat : 2 ^ 63 ≤ cfg.backoffMin * 2 ^ (n + 1)) :
    restartDelay cfg (n + 2) < 0 := by
  have hdouble : cfg.backoffMin * 2 ^ (n + 1) = cfg.backoffMin * 2 ^ n * 2 := by ring
  have hwrap : (cfg.backoffMin * 2 ^ (n + 1)).bmod (2 ^ 64) < 0 := by
    rw [← Int.sub_bmod_right, Int.bmod_eq_of_le_mul_two (by omega) (by omega)]
    omega
  rw [restartDelay_eq hcfg (by omega)]
  exact lt_of_le_of_lt (min_le_left _ _) hwrap

/-! ## The attempts of a run -/

/-- A failing check counts, and the wait that follows it is that of the count. -/
structure Supervised.Counted (cfg : SupervisorConfig) (s : Supervised) : Prop where
  counts : ∀ k f, s.failures k = some f → f.attempts = f.count ∧ 1 ≤ f.count
  waits : ∀ p delay rest, s.phase = .waiting p delay rest →
    ∃ f, s.failures (failureKey p) = some f ∧ f.attempts < cfg.maxAttempts ∧
      delay = restartDelay cfg f.attempts

theorem countFailure_counts (cfg : SupervisorConfig) {state : Option FailureWindow} (now : ℤ)
    (h : ∀ f, state = some f → f.attempts = f.count ∧ 1 ≤ f.count) :
    (countFailure cfg now state).attempts = (countFailure cfg now state).count ∧
      1 ≤ (countFailure cfg now state).count := by
  cases state with
  | none => exact ⟨rfl, le_rfl⟩
  | some f =>
      rw [countFailure]
      split_ifs
      · exact ⟨rfl, le_rfl⟩
      · exact ⟨congrArg (· + 1) (h f rfl).1, Nat.le_add_left 1 f.count⟩

theorem next_ne_waiting {p : PluginVersion} {delay : ℤ} {rest list : List PluginVersion} :
    Phase.next list ≠ .waiting p delay rest := by
  cases list <;> simp [Phase.next]

theorem counted_check {s : Supervised} (hs : s.Counted cfg) (p : PluginVersion)
    (rest : List PluginVersion) (answer : Option String) (now : ℤ) :
    (s.check cfg p rest answer now).Counted cfg := by
  cases answer with
  | none =>
      refine ⟨?_, fun q delay rest' hq => absurd hq next_ne_waiting⟩
      intro k f hf
      simp only [Supervised.check] at hf
      split_ifs at hf
      exact hs.counts k f hf
  | some cause =>
      have hcounts := countFailure_counts cfg now (hs.counts (failureKey p))
      refine ⟨?_, ?_⟩
      · intro k f hf
        simp only [Supervised.check] at hf
        split_ifs at hf
        · obtain rfl := Option.some.inj hf
          exact hcounts
        · exact hs.counts k f hf
      · intro q delay rest' hq
        simp only [Supervised.check] at hq ⊢
        split_ifs at hq with hmany
        obtain ⟨rfl, rfl, rfl⟩ := Phase.waiting.inj hq
        exact ⟨_, if_pos rfl, by omega, rfl⟩

/-- A step other than a check keeps the counts and starts no wait. -/
theorem supervisorStep_counts {s t : Supervised} {input : SupervisorInput}
    (h : supervisorStep cfg s input = some t) :
    (∃ p rest answer now, t = s.check cfg p rest answer now) ∨
      t.failures = s.failures ∧
        (t.phase = s.phase ∨ ∀ p delay rest, t.phase ≠ .waiting p delay rest) := by
  obtain ⟨w, phase, failures, done⟩ := s
  cases input with
  | cancel =>
      obtain rfl := Option.some.inj h
      exact .inr ⟨rfl, .inl rfl⟩
  | list fault =>
      cases phase with
      | idle =>
          simp only [supervisorStep] at h
          split_ifs at h
          cases fault with
          | some e =>
              obtain rfl := Option.some.inj h
              exact .inr ⟨rfl, .inl rfl⟩
          | none =>
              obtain rfl := Option.some.inj h
              exact .inr ⟨rfl, .inr fun _ _ _ => next_ne_waiting⟩
      | _ => cases h
  | health answer now =>
      cases phase with
      | checking p rest =>
          obtain rfl := Option.some.inj h
          exact .inl ⟨p, rest, answer, now, rfl⟩
      | _ => cases h
  | wait fault =>
      cases phase with
      | waiting p delay rest =>
          cases fault with
          | none =>
              obtain rfl := Option.some.inj h
              exact .inr ⟨rfl, .inr fun _ _ _ => by simp⟩
          | some e =>
              simp only [supervisorStep] at h
              split_ifs at h
              obtain rfl := Option.some.inj h
              exact .inr ⟨rfl, .inr fun _ _ _ => by simp⟩
      | _ => cases h
  | write fault =>
      simp only [supervisorStep] at h
      split_ifs at h
      cases phase with
      | disabling p cause rest =>
          rcases hw : w.write fault "set plugin state" p.key .installed failureHookRefreshFailed
            (disableMessage cfg cause) with ⟨w', r, err⟩
          simp only [hw] at h
          cases err with
          | some e =>
              obtain rfl := Option.some.inj h
              exact .inr ⟨rfl, .inr fun _ _ _ => next_ne_waiting⟩
          | none =>
              obtain rfl := Option.some.inj h
              exact .inr ⟨rfl, .inr fun _ _ _ => by simp⟩
      | marking p err rest =>
          obtain rfl := Option.some.inj h
          exact .inr ⟨rfl, .inr fun _ _ _ => next_ne_waiting⟩
      | _ => cases h
  | stop fault =>
      cases phase with
      | stopping p rest =>
          obtain rfl := Option.some.inj h
          exact .inr ⟨rfl, .inr fun _ _ _ => next_ne_waiting⟩
      | restopping p rest =>
          cases fault with
          | none | some _ =>
              obtain rfl := Option.some.inj h
              exact .inr ⟨rfl, .inr fun _ _ _ => by simp⟩
      | _ => cases h
  | start fault =>
      cases phase with
      | restarting p rest =>
          cases fault with
          | none =>
              obtain rfl := Option.some.inj h
              exact .inr ⟨rfl, .inr fun _ _ _ => next_ne_waiting⟩
          | some e =>
              obtain rfl := Option.some.inj h
              exact .inr ⟨rfl, .inr fun _ _ _ => by simp⟩
      | _ => cases h

theorem counted_step {svc : Service} {s t : Watched} {a : WatchAction}
    (hs : s.sup.Counted cfg) (h : s.step svc cfg a = some t) : t.sup.Counted cfg := by
  cases a with
  | other w =>
      simp only [Watched.step] at h
      split_ifs at h
      obtain rfl := Option.some.inj h
      exact ⟨hs.counts, hs.waits⟩
  | race a =>
      cases a with
      | operation F op =>
          obtain rfl := Option.some.inj h
          exact ⟨hs.counts, hs.waits⟩
      | call c =>
          obtain rfl := Option.some.inj h
          exact ⟨hs.counts, hs.waits⟩
      | supervisor input =>
          obtain ⟨u, hu, rfl⟩ := Option.map_eq_some_iff.mp h
          rcases supervisorStep_counts hu with ⟨p, rest, answer, now, rfl⟩ | ⟨hfailures, hphase⟩
          · exact counted_check hs p rest answer now
          · refine ⟨fun k f hf => hs.counts k f (hfailures ▸ hf), ?_⟩
            intro p delay rest hp
            rcases hphase with hphase | hphase
            · rw [hfailures]
              exact hs.waits p delay rest (hphase ▸ hp)
            · exact absurd hp (hphase p delay rest)

/-- Check after check of the one version fails, and every restart succeeds. -/
def FailedSo (n : ℕ) (s : Watched) : Prop :=
  s.sup.phase = .checking demoEnabled [] ∧ s.sup.world.registry.rows = [demoEnabled] ∧
    s.sup.done = false ∧
    s.sup.failures (failureKey demoEnabled) = if n = 0 then none else some ⟨0, n, n⟩

theorem FailedSo.count (hcfg : cfg.Positive) {n : ℕ} {s : Watched} (h : FailedSo n s) :
    countFailure cfg 0 (s.sup.failures (failureKey demoEnabled)) = ⟨0, n + 1, n + 1⟩ := by
  rw [h.2.2.2]
  split_ifs with hzero
  · subst hzero
    rfl
  · have hwindow : ¬ (0 : ℤ) - 0 > cfg.window := by
      have := hcfg.window
      omega
    exact if_neg hwindow

theorem FailedSo.round (svc : Service) (hcfg : cfg.Positive) {n : ℕ} {s : Watched}
    (h : FailedSo n s) (hfew : n + 1 < cfg.maxAttempts) :
    ∃ t u, s.step svc cfg (.race (.supervisor (.health (some "down") 0))) = some t ∧
      t.sup.phase = .waiting demoEnabled (restartDelay cfg (n + 1)) [] ∧
      t.sup.failures (failureKey demoEnabled) = some ⟨0, n + 1, n + 1⟩ ∧
      run (Watched.step svc cfg) t (answers [.wait none, .stop none, .start none, .list none]) =
        some u ∧ FailedSo (n + 1) u := by
  have hcount := h.count hcfg
  obtain ⟨⟨w, phase, failures, done⟩, log⟩ := s
  obtain ⟨hphase, hrows, hdone, -⟩ := h
  dsimp only at hphase hrows hdone hcount
  subst hphase hdone
  have hcheck : Supervised.check cfg ⟨w, .checking demoEnabled [], failures, false⟩ demoEnabled []
      (some "down") 0 = ⟨w, .waiting demoEnabled (restartDelay cfg (n + 1)) [],
        fun k => if k = failureKey demoEnabled then some ⟨0, n + 1, n + 1⟩ else failures k,
        false⟩ := by
    simp only [Supervised.check, hcount, ge_iff_le, if_neg (not_le.mpr hfew)]
  refine ⟨⟨⟨w, .waiting demoEnabled (restartDelay cfg (n + 1)) [],
      fun k => if k = failureKey demoEnabled then some ⟨0, n + 1, n + 1⟩ else failures k, false⟩,
      .checked demoEnabled.key true 0 :: log⟩,
    ⟨⟨((w.stop none demoEnabled).1.start none demoEnabled).1, .checking demoEnabled [],
      fun k => if k = failureKey demoEnabled then some ⟨0, n + 1, n + 1⟩ else failures k, false⟩,
      .checked demoEnabled.key true 0 :: log⟩, ?_, rfl, by simp, ?_, rfl, hrows, rfl, ?_⟩
  · simp only [Watched.step, supervisorStep, hcheck]
    rfl
  · have hlast := @list_single svc cfg
      ⟨⟨((w.stop none demoEnabled).1.start none demoEnabled).1, .idle,
        fun k => if k = failureKey demoEnabled then some ⟨0, n + 1, n + 1⟩ else failures k, false⟩,
        .checked demoEnabled.key true 0 :: log⟩ demoEnabled rfl hrows rfl rfl
    exact (congrArg (Option.bind · _) hlast).trans rfl
  · simp

theorem exists_failures (svc : Service) (hcfg : cfg.Positive) {n : ℕ} (hn : n < cfg.maxAttempts) :
    ∃ actions s, run (Watched.step svc cfg) (.init enabledWorld) actions = some s ∧
      FailedSo n s := by
  induction n with
  | zero => exact ⟨[.race (.supervisor (.list none))], _, run_list [], rfl, rfl, rfl, rfl⟩
  | succ n ih =>
      obtain ⟨actions, s, hrun, hs⟩ := ih (by omega)
      obtain ⟨t, u, hcheck, -, -, hrest, hu⟩ := hs.round svc hcfg hn
      refine ⟨actions ++ .race (.supervisor (.health (some "down") 0)) ::
        answers [.wait none, .stop none, .start none, .list none], u, ?_, hu⟩
      rw [run_append, hrun, Option.bind_some, run_cons, hcheck, Option.bind_some, hrest]

/-- The attempts of a run are all those before the one that disables the version. -/
theorem delays_iff (svc : Service) (hcfg : cfg.Positive) {attempt : ℕ} {delay : ℤ} :
    Delays svc cfg attempt delay ↔
      1 ≤ attempt ∧ attempt < cfg.maxAttempts ∧ delay = restartDelay cfg attempt := by
  constructor
  · rintro ⟨w, actions, s, p, rest, f, hw, hrun, hphase, hf, rfl⟩
    have hinit : (Watched.init w).sup.Counted cfg :=
      ⟨nofun, nofun⟩
    have halong : Along (Watched.step svc cfg) (fun s => s.sup.Counted cfg) (.init w) actions :=
      along_of_invariant (fun _ _ _ hs h => counted_step hs h) actions hinit
    have hs := halong.last hrun
    obtain ⟨g, hg, hfew, hdelay⟩ := hs.waits p delay rest hphase
    obtain rfl := Option.some.inj (hf.symm.trans hg)
    obtain ⟨hcount, hone⟩ := hs.counts _ _ hf
    exact ⟨hcount ▸ hone, hfew, hdelay⟩
  · rintro ⟨hone, hfew, rfl⟩
    obtain ⟨n, rfl⟩ := Nat.exists_eq_add_of_le' hone
    obtain ⟨actions, s, hrun, hs⟩ := exists_failures svc hcfg (n.lt_succ_self.trans hfew)
    obtain ⟨t, -, hcheck, hphase, hfailures, -, -⟩ := hs.round svc hcfg hfew
    refine ⟨enabledWorld, actions ++ [.race (.supervisor (.health (some "down") 0))], t,
      demoEnabled, [], _, by decide, ?_, hphase, hfailures, rfl⟩
    rw [run_append, hrun, Option.bind_some, run_cons, hcheck]
    rfl

/-- The first attempt whose product does not fit comes right after one whose product fits. -/
theorem exists_first_overflow (hcfg : cfg.Positive) {n : ℕ}
    (h : 2 ^ 63 ≤ cfg.backoffMin * 2 ^ n) :
    ∃ m < n, cfg.backoffMin * 2 ^ m < 2 ^ 63 ∧ 2 ^ 63 ≤ cfg.backoffMin * 2 ^ (m + 1) := by
  induction n with
  | zero =>
      have := hcfg.backoffMin.2
      rw [pow_zero, mul_one] at h
      omega
  | succ n ih =>
      by_cases hn : 2 ^ 63 ≤ cfg.backoffMin * 2 ^ n
      · obtain ⟨m, hm, hfits⟩ := ih hn
        exact ⟨m, hm.trans n.lt_succ_self, hfits⟩
      · exact ⟨n, n.lt_succ_self, not_le.mp hn, h⟩

/-- The delays back off exactly when no version is ever restarted, or when the bounds are in
order and the product of the last attempt is a 64-bit number. -/
theorem backsOff_iff (svc : Service) (hcfg : cfg.Positive) :
    BacksOff svc cfg ↔ cfg.maxAttempts ≤ 1 ∨
      cfg.backoffMin ≤ cfg.backoffMax ∧ cfg.backoffMin * 2 ^ (cfg.maxAttempts - 2) < 2 ^ 63 := by
  have hpos := hcfg.backoffMin.1
  constructor
  · intro h
    by_cases hfew : cfg.maxAttempts ≤ 1
    · exact .inl hfew
    · have hfirst := h.bounds ((delays_iff svc hcfg).mpr ⟨le_rfl, by omega, rfl⟩)
      refine .inr ⟨hfirst.1.trans hfirst.2, ?_⟩
      by_contra hover
      obtain ⟨m, hm, hbefore, hat⟩ := exists_first_overflow hcfg (not_lt.mp hover)
      have hnegative := restartDelay_negative hcfg hbefore hat
      have hbounds := h.bounds ((delays_iff svc hcfg).mpr ⟨(by omega : 1 ≤ m + 2), by omega, rfl⟩)
      omega
  · rintro (hfew | ⟨hle, hlast⟩)
    · have hnone : ∀ {attempt delay}, ¬ Delays svc cfg attempt delay := by
        intro attempt delay hdelay
        obtain ⟨hone, hmax, -⟩ := (delays_iff svc hcfg).mp hdelay
        omega
      exact ⟨fun hd => absurd hd hnone, fun hd => absurd hd hnone⟩
    · have hdelay : ∀ {attempt delay}, Delays svc cfg attempt delay →
          delay = min (cfg.backoffMin * 2 ^ (attempt - 1)) cfg.backoffMax := by
        intro attempt delay hd
        obtain ⟨hone, hmax, rfl⟩ := (delays_iff svc hcfg).mp hd
        refine restartDelay_of_fits hcfg hone (lt_of_le_of_lt ?_ hlast)
        exact mul_le_mul_of_nonneg_left (pow_le_pow_right₀ (by decide) (by omega)) hpos.le
      refine ⟨?_, ?_⟩
      · intro attempt delay hd
        rw [hdelay hd]
        refine ⟨le_min ?_ hle, min_le_right _ _⟩
        exact le_mul_of_one_le_right hpos.le (one_le_pow₀ (by decide))
      · intro attempt attempt' delay delay' hd hd' hlater
        rw [hdelay hd, hdelay hd']
        refine min_le_min_right _ (mul_le_mul_of_nonneg_left ?_ hpos.le)
        exact pow_le_pow_right₀ (by decide) (Nat.sub_le_sub_right hlater 1)

end

/-- For all options, the delays of the supervisor back off exactly when no version is ever
restarted, or when the bounds are in order and the product of the last attempt fits. -/
theorem restart_backs_off_iff (svc : Service) (opts : List SupervisorOption) :
    BacksOff svc (newHealthSupervisor opts) ↔
      let cfg := newHealthSupervisor opts
      cfg.maxAttempts ≤ 1 ∨
        cfg.backoffMin ≤ cfg.backoffMax ∧ cfg.backoffMin * 2 ^ (cfg.maxAttempts - 2) < 2 ^ 63 :=
  backsOff_iff svc (positive_newHealthSupervisor opts)

/-- A maximum of forty attempts within a day. -/
def patientOptions : List SupervisorOption := [.maxAttempts 40, .window 86400000000000]

/-- The delay before the thirty-fifth restart is negative, so it does not wait. -/
theorem thirty_fifth_restart_at_once :
    Delays demoService (newHealthSupervisor patientOptions) 35 (-1266874889709551616) ∧
      ¬ BacksOff demoService (newHealthSupervisor patientOptions) := by
  have hpositive := positive_newHealthSupervisor patientOptions
  have hdelay : Delays demoService (newHealthSupervisor patientOptions) 35
      (-1266874889709551616) :=
    (delays_iff demoService hpositive).mpr ⟨by decide, by decide, by decide⟩
  refine ⟨hdelay, fun hall => ?_⟩
  have hbounds := hall.bounds hdelay
  exact absurd hbounds.1 (by decide)

end GoSite.Plugin
