import GoSite.StrictEvents

/-!
# The order of parallel calls

The targets of an event that is not strict may be called by goroutines. Each of them
works on the breaker of its own target and on its own place in the list of results,
and the results are sorted by plugin, so it does not matter who comes first.
-/
namespace GoSite.Hookbus
open GuardedRuns

/-- The result of a target whose breaker is in the state `state` before. -/
def outcome (cfg : Config) (state : BreakerState) (t : Target) (w : CallWeather) :
    HookCallResult :=
  if state.OpenAt cfg w.checkedAt then skippedCall t w else madeCall t w

/-- A call without its duration. -/
def HookCallResult.unmeasured (call : HookCallResult) : HookCallResult := { call with duration := 0 }

/-- A target has one outcome: its breaker is open in both or closed in both, and
`CallHook` gives the same answer. The clock may show other times. -/
structure SameOutcome (cfg : Config) (state : BreakerState) (w w' : CallWeather) : Prop where
  breaker : state.OpenAt cfg w.checkedAt ↔ state.OpenAt cfg w'.checkedAt
  answer : w.answer = w'.answer
  timedOut : w.timedOut = w'.timedOut

section
variable {cfg : Config} {weather : Target → CallWeather}

theorem callOne_outcome (b : Bus) (t : Target) (w : CallWeather) :
    (b.callOne cfg t w).2 = outcome cfg (b.breakers t.key) t w := by
  by_cases h : (b.breakers t.key).OpenAt cfg w.checkedAt
  · rw [callOne_of_open h, outcome, if_pos h]
  · rw [callOne_of_closed h, outcome, if_neg h]

theorem outcome_unmeasured {state : BreakerState} {w w' : CallWeather}
    (h : SameOutcome cfg state w w') (t : Target) :
    (outcome cfg state t w).unmeasured = (outcome cfg state t w').unmeasured := by
  rw [outcome, outcome]
  by_cases hopen : state.OpenAt cfg w.checkedAt
  · rw [if_pos hopen, if_pos (h.breaker.mp hopen)]
    rfl
  · rw [if_neg hopen, if_neg fun hopen' => hopen (h.breaker.mpr hopen'), madeCall, madeCall,
      h.answer, h.timedOut]
    cases w'.answer <;> rfl

theorem outcome_pluginID (state : BreakerState) (t : Target) (w : CallWeather) :
    (outcome cfg state t w).pluginID = t.pluginID := by
  rw [outcome]
  split_ifs with h
  · rfl
  · rw [madeCall]
    cases w.answer <;> rfl

/-! ## Sequential calls -/

theorem sequentialLoop_spec {ts : List Target} (hkeys : (ts.map Target.key).Nodup) (b : Bus) :
    (sequentialLoop cfg weather b ts).2 =
        ts.map (fun t => outcome cfg (b.breakers t.key) t (weather t)) ∧
      ∀ k ∉ ts.map Target.key, (sequentialLoop cfg weather b ts).1.breakers k = b.breakers k := by
  induction ts generalizing b with
  | nil => exact ⟨rfl, fun _ _ => rfl⟩
  | cons t ts ih =>
      rw [List.map_cons, List.nodup_cons] at hkeys
      obtain ⟨hcalls, hothers⟩ := ih hkeys.2 (b.callOne cfg t (weather t)).1
      have hkeep : ∀ s ∈ ts,
          (b.callOne cfg t (weather t)).1.breakers s.key = b.breakers s.key := by
        intro s hs
        refine callOne_breakers fun hk => hkeys.1 ?_
        exact List.mem_map.mpr ⟨s, hs, hk⟩
      rw [sequentialLoop]
      dsimp only
      constructor
      · rw [hcalls, callOne_outcome, List.map_cons, List.cons.injEq]
        refine ⟨rfl, List.map_congr_left fun s hs => ?_⟩
        rw [hkeep s hs]
      · intro k hk
        rw [List.map_cons, List.mem_cons, not_or] at hk
        rw [hothers k hk.2, callOne_breakers hk.1]

/-! ## Goroutines -/

/-- How far a goroutine is says what it knows of its breaker and of its result. -/
def Phase.Tells (cfg : Config) (state : BreakerState) (bus : Bus) (t : Target) (w : CallWeather) :
    Phase → Prop
  | .waiting => bus.breakers t.key = state
  | .entered => bus.breakers t.key = state
  | .expired => ¬ state.OpenAt cfg w.checkedAt
  | .calling => ¬ state.OpenAt cfg w.checkedAt
  | .answered => ¬ state.OpenAt cfg w.checkedAt
  | .finished call => call = outcome cfg state t w
  | .left call => call = outcome cfg state t w

theorem Phase.Tells.congr {state : BreakerState} {bus bus' : Bus} {t : Target} {w : CallWeather}
    {phase : Phase} (h : phase.Tells cfg state bus t w)
    (hbus : bus'.breakers t.key = bus.breakers t.key) : phase.Tells cfg state bus' t w := by
  cases phase with
  | waiting => exact hbus.trans h
  | entered => exact hbus.trans h
  | expired => exact h
  | calling => exact h
  | answered => exact h
  | finished call => exact h
  | left call => exact h

/-- A step of a goroutine concerns its own phase and its own breaker. -/
theorem advance_spec {s s' : Pool} {i : ℕ} {t : Target} {w : CallWeather} {phase : Phase}
    {state : BreakerState} (h : s.advance cfg i t w phase = some s')
    (htells : phase.Tells cfg state s.bus t w) :
    ∃ next, s'.phases = s.phases.set i next ∧ next.Tells cfg state s'.bus t w ∧
      ∀ k ≠ t.key, s'.bus.breakers k = s.bus.breakers k := by
  cases phase with
  | waiting =>
      rw [Pool.advance] at h
      split_ifs at h
      obtain rfl := Option.some.inj h
      exact ⟨.entered, rfl, htells, fun _ _ => rfl⟩
  | entered =>
      have hstate : s.bus.breakers t.key = state := htells
      rw [Pool.advance, hstate] at h
      split_ifs at h with hfew hopen
      · obtain rfl := Option.some.inj h
        exact ⟨.calling, rfl, fun hopen => absurd hopen.1 (not_le.mpr hfew), fun _ _ => rfl⟩
      · obtain rfl := Option.some.inj h
        exact ⟨.finished (skippedCall t w), rfl, (if_pos hopen).symm, fun _ _ => rfl⟩
      · obtain rfl := Option.some.inj h
        exact ⟨.expired, rfl, hopen, fun _ _ => rfl⟩
  | expired =>
      obtain rfl := Option.some.inj h
      exact ⟨.calling, rfl, htells, fun k hk => Function.update_of_ne hk _ _⟩
  | calling =>
      obtain rfl := Option.some.inj h
      exact ⟨.answered, rfl, htells, fun _ _ => rfl⟩
  | answered =>
      obtain rfl := Option.some.inj h
      refine ⟨.finished (madeCall t w), rfl, (if_neg htells).symm, fun k hk => ?_⟩
      dsimp only [Pool.to]
      split_ifs
      · exact Function.update_of_ne hk _ _
      · exact Function.update_of_ne hk _ _
  | finished call =>
      obtain rfl := Option.some.inj h
      exact ⟨.left call, rfl, htells, fun _ _ => rfl⟩
  | left call => cases h

/-- Each goroutine is where its phase tells. -/
structure Pool.Told (cfg : Config) (breakers : String → BreakerState) (targets : List Target)
    (weather : Target → CallWeather) (s : Pool) : Prop where
  length : s.phases.length = targets.length
  tells : ∀ (i : ℕ) (t : Target) (phase : Phase), targets[i]? = some t → s.phases[i]? = some phase →
    phase.Tells cfg (breakers t.key) s.bus t (weather t)

variable {breakers : String → BreakerState} {targets : List Target}

theorem told_start {b : Bus} (hb : ∀ t ∈ targets, b.breakers t.key = breakers t.key) :
    (Pool.start cfg b targets).Told cfg breakers targets weather := by
  refine ⟨by simp [Pool.start], ?_⟩
  intro i t phase ht hphase
  rw [Pool.start, List.getElem?_map, ht] at hphase
  obtain rfl := Option.some.inj hphase
  exact hb t (List.mem_of_getElem? ht)

theorem told_step (hkeys : (targets.map Target.key).Nodup) {s s' : Pool} {i : ℕ}
    (hs : s.Told cfg breakers targets weather)
    (h : Pool.step cfg targets weather s i = some s') : s'.Told cfg breakers targets weather := by
  rw [Pool.step] at h
  cases ht : targets[i]? with
  | none => simp [ht] at h
  | some t =>
      cases hphase : s.phases[i]? with
      | none => simp [ht, hphase] at h
      | some phase =>
          rw [ht, hphase] at h
          obtain ⟨next, hphases, hnext, hothers⟩ := advance_spec h (hs.tells i t phase ht hphase)
          refine ⟨by rw [hphases, List.length_set, hs.length], ?_⟩
          intro j u phase' hu hphase'
          rw [hphases, List.getElem?_set] at hphase'
          split_ifs at hphase' with hij hlt
          · subst hij
            rw [ht] at hu
            obtain rfl := Option.some.inj hu
            obtain rfl := Option.some.inj hphase'
            exact hnext
          · refine (hs.tells j u phase' hu hphase').congr (hothers _ fun hkey => hij ?_)
            -- Another goroutine has another target, with another breaker.
            have hget : ∀ {n : ℕ} {v : Target}, targets[n]? = some v →
                (targets.map Target.key)[n]? = some v.key := by
              intro n v hv
              rw [List.getElem?_map, hv]
              rfl
            have hlen : i < (targets.map Target.key).length := by
              rw [List.length_map]
              exact (List.getElem?_eq_some_iff.mp ht).1
            exact (List.getElem?_inj hlen hkeys).mp (by rw [hget ht, hget hu, hkey])

theorem told_run (hkeys : (targets.map Target.key).Nodup) {schedule : List ℕ} {s s' : Pool}
    (hs : s.Told cfg breakers targets weather)
    (h : run (Pool.step cfg targets weather) s schedule = some s') :
    s'.Told cfg breakers targets weather :=
  (along_of_invariant (fun _ _ _ hs hstep => told_step hkeys hs hstep) schedule hs).last h

theorem results_of_told {s : Pool} (hs : s.Told cfg breakers targets weather)
    {calls : List HookCallResult} (h : s.results = some calls) :
    calls = targets.map fun t => outcome cfg (breakers t.key) t (weather t) := by
  obtain ⟨hlen, htells⟩ := hs
  rw [Pool.results] at h
  generalize s.phases = phases at hlen htells h
  induction phases generalizing targets calls with
  | nil =>
      rw [List.mapM_nil] at h
      obtain rfl := Option.some.inj h
      rw [List.length_nil] at hlen
      rw [List.length_eq_zero_iff.mp hlen.symm]
      rfl
  | cons phase phases ih =>
      cases targets with
      | nil => simp at hlen
      | cons t ts =>
          rw [List.mapM_cons] at h
          obtain ⟨call, hcall, h⟩ := Option.bind_eq_some_iff.mp h
          obtain ⟨rest, hrest, h⟩ := Option.bind_eq_some_iff.mp h
          obtain rfl := Option.some.inj h
          have htail := ih (by simpa using hlen)
            (fun i u phase' hu hp => htells (i + 1) u phase' hu hp) hrest
          have hhead := htells 0 t phase rfl rfl
          cases phase with
          | left done =>
              obtain rfl := Option.some.inj hcall
              rw [List.map_cons, htail, show done = _ from hhead]
          | waiting => cases hcall
          | entered => cases hcall
          | expired => cases hcall
          | calling => cases hcall
          | answered => cases hcall
          | finished call => cases hcall

/-- The goroutines return what calls one after the other would. -/
theorem callIndependent_results (hkeys : (targets.map Target.key).Nodup) {b b' : Bus}
    {schedule : List ℕ} {calls : List HookCallResult}
    (h : callIndependent cfg weather b targets schedule = some (b', calls)) :
    calls = targets.map fun t => outcome cfg (b.breakers t.key) t (weather t) := by
  rw [callIndependent] at h
  cases hrun : run (Pool.step cfg targets weather) (.start cfg b targets) schedule with
  | none => simp [hrun] at h
  | some s =>
      rw [hrun] at h
      obtain ⟨calls', hresults, heq⟩ := Option.map_eq_some_iff.mp h
      obtain ⟨-, rfl⟩ := Prod.mk.inj heq
      exact results_of_told (told_run hkeys (told_start fun _ _ => rfl) hrun) hresults

end

/-! ## Sorted results -/

theorem eq_of_callKey_le {calls calls' : List HookCallResult} (hperm : calls.Perm calls')
    (hids : (calls.map HookCallResult.pluginID).Nodup)
    (hsorted : calls.Pairwise fun c c' =>
      callKey c.pluginID c.version ≤ callKey c'.pluginID c'.version)
    (hsorted' : calls'.Pairwise fun c c' =>
      callKey c.pluginID c.version ≤ callKey c'.pluginID c'.version) : calls = calls' := by
  refine hperm.eq_of_pairwise (fun c c' hc hc' hle hge => ?_) hsorted hsorted'
  have hkey : callKey c.pluginID c.version = callKey c'.pluginID c'.version :=
    le_antisymm hle hge
  have hid : c.pluginID = c'.pluginID := congrArg (fun key => (ofLex key).1) hkey
  exact List.inj_on_of_nodup_map hids hc (hperm.mem_iff.mpr hc') hid

theorem arranged_sortCalls (calls : List HookCallResult) :
    StableSorts.Arranged
      (fun s t => lessVersion s.pluginID s.version t.pluginID t.version)
      (fun s t => callKey s.pluginID s.version ≤ callKey t.pluginID t.version) calls
      (sortCalls calls) := by
  have ha := StableSorts.arranging_key fun c : HookCallResult => callKey c.pluginID c.version
  have hless : (fun s t : HookCallResult =>
        lessVersion s.pluginID s.version t.pluginID t.version) =
      fun s t => decide (callKey s.pluginID s.version < callKey t.pluginID t.version) :=
    funext₂ fun s t => lessVersion_eq _ _ _ _
  rw [sortCalls, hless]
  exact StableSorts.arranged_stable ha calls

/-- Calls of different plugins have one sorted order, whatever their durations. -/
theorem sortCalls_unmeasured {calls calls' : List HookCallResult}
    (hsame : calls.map HookCallResult.unmeasured = calls'.map HookCallResult.unmeasured)
    (hids : (calls.map HookCallResult.pluginID).Nodup) :
    (sortCalls calls).map HookCallResult.unmeasured =
      (sortCalls calls').map HookCallResult.unmeasured := by
  have hperm : ((sortCalls calls).map HookCallResult.unmeasured).Perm
      ((sortCalls calls').map HookCallResult.unmeasured) := by
    refine ((arranged_sortCalls calls).perm.map _).trans ?_
    rw [hsame]
    exact ((arranged_sortCalls calls').perm.map _).symm
  have hsorted : ∀ calls : List HookCallResult,
      ((sortCalls calls).map HookCallResult.unmeasured).Pairwise fun c c' =>
        callKey c.pluginID c.version ≤ callKey c'.pluginID c'.version :=
    fun calls => List.pairwise_map.mpr (arranged_sortCalls calls).sorted
  refine eq_of_callKey_le hperm ?_ (hsorted calls) (hsorted calls')
  rw [List.map_map]
  exact ((arranged_sortCalls calls).perm.map _).nodup_iff.mpr hids

theorem warningsOf_unmeasured (calls : List HookCallResult) :
    warningsOf (calls.map HookCallResult.unmeasured) = warningsOf calls := by
  induction calls with
  | nil => rfl
  | cons call calls ih =>
      simp only [warningsOf, List.map_cons, List.filter_cons] at ih ⊢
      have hstatus : call.unmeasured.status = call.status := rfl
      rw [hstatus]
      split_ifs
      · rw [List.map_cons, List.map_cons, ih]
        rfl
      · exact ih

/-! ## Whole dispatches -/

section
variable {d : Dispatcher} {eventName : String} {weather : Target → CallWeather}

/-- The result of an event that is not strict, from the breakers before it. -/
def Dispatcher.lenientResult (d : Dispatcher) (breakers : String → BreakerState)
    (eventName : String) (weather : Target → CallWeather) : HookResult :=
  let callOf := fun t : Target => outcome d.cfg (breakers t.key) t (weather t)
  let (sequential, independent) := d.splitByIsolation (d.targetsFor eventName)
  ⟨eventName, false, sortCalls (sequential.map callOf ++ independent.map callOf),
    warningsOf (sequential.map callOf) ++ warningsOf (independent.map callOf)⟩

/-- Every schedule that ends gives this result. -/
theorem dispatchLenient_result {b b' : Bus} {schedule : List ℕ} {result : HookResult}
    (h : d.dispatchLenient b eventName weather schedule = some (b', result)) :
    result = d.lenientResult b.breakers eventName weather := by
  have hkeys := @targetsFor_keys d eventName
  have hsequential : (((d.targetsFor eventName).filter (!d.isIndependent ·)).map
      Target.key).Nodup := hkeys.sublist (List.filter_sublist.map _)
  have hindependent : (((d.targetsFor eventName).filter d.isIndependent).map
      Target.key).Nodup := hkeys.sublist (List.filter_sublist.map _)
  obtain ⟨hcalls, hothers⟩ := @sequentialLoop_spec d.cfg weather _ hsequential b
  rw [Dispatcher.dispatchLenient, Dispatcher.splitByIsolation] at h
  obtain ⟨⟨b'', concurrent⟩, hconcurrent, heq⟩ := Option.map_eq_some_iff.mp h
  obtain ⟨-, rfl⟩ := Prod.mk.inj heq
  have hresults := callIndependent_results hindependent hconcurrent
  have hkeep : ∀ t ∈ (d.targetsFor eventName).filter d.isIndependent,
      (sequentialLoop d.cfg weather b
        ((d.targetsFor eventName).filter (!d.isIndependent ·))).1.breakers t.key =
          b.breakers t.key := by
    intro t ht
    refine hothers t.key fun hmem => ?_
    obtain ⟨s, hs, hkey⟩ := List.mem_map.mp hmem
    obtain ⟨hs, hsflag⟩ := List.mem_filter.mp hs
    obtain ⟨ht, htflag⟩ := List.mem_filter.mp ht
    obtain rfl := List.inj_on_of_nodup_map hkeys hs ht hkey
    simp [htflag] at hsflag
  have hsame : concurrent = ((d.targetsFor eventName).filter d.isIndependent).map
      fun t => outcome d.cfg (b.breakers t.key) t (weather t) := by
    rw [hresults]
    exact List.map_congr_left fun t ht => by rw [hkeep t ht]
  rw [hsame, hcalls]
  rfl

theorem lenientResult_pluginIDs (breakers : String → BreakerState) :
    let callOf := fun t : Target => outcome d.cfg (breakers t.key) t (weather t)
    (((d.targetsFor eventName).filter (!d.isIndependent ·)).map callOf ++
      ((d.targetsFor eventName).filter d.isIndependent).map callOf).map
        HookCallResult.pluginID |>.Nodup := by
  intro callOf
  have hids : ∀ ts : List Target, (ts.map callOf).map HookCallResult.pluginID =
      ts.map Target.pluginID := by
    intro ts
    rw [List.map_map]
    exact List.map_congr_left fun t _ => outcome_pluginID _ _ _
  have hperm : ((d.targetsFor eventName).filter (!d.isIndependent ·) ++
      (d.targetsFor eventName).filter d.isIndependent).Perm (d.targetsFor eventName) := by
    refine List.perm_append_comm.trans ?_
    exact List.filter_append_perm d.isIndependent _
  rw [List.map_append, hids, hids, ← List.map_append, (hperm.map _).nodup_iff]
  exact targetsFor_nodup

/-- The order in which the map of the enabled targets is read does not matter either. -/
theorem targetsFor_perm {enabled' : Enabled} (hmap : d.enabled.targets.Perm enabled'.targets) :
    Dispatcher.targetsFor { d with enabled := enabled' } eventName = d.targetsFor eventName := by
  have hperm : (Dispatcher.targetsFor { d with enabled := enabled' } eventName).Perm
      (d.targetsFor eventName) := by
    refine (arranged_sortTargets _).perm.trans ?_
    exact (hmap.symm.filter (d.declaresHook · eventName)).trans (arranged_sortTargets _).perm.symm
  refine hperm.eq_of_pairwise (fun s t hs ht hle hge => ?_) (arranged_sortTargets _).sorted
    (arranged_sortTargets _).sorted
  have hkey : callKey s.pluginID s.version = callKey t.pluginID t.version := le_antisymm hle hge
  have hid : s.pluginID = t.pluginID := congrArg (fun key => (ofLex key).1) hkey
  exact List.inj_on_of_nodup_map targetsFor_nodup (hperm.mem_iff.mp hs) ht hid

theorem lenientResult_perm {enabled' : Enabled} {breakers : String → BreakerState}
    (hmap : d.enabled.targets.Perm enabled'.targets) :
    Dispatcher.lenientResult { d with enabled := enabled' } breakers eventName weather =
      d.lenientResult breakers eventName weather := by
  rw [Dispatcher.lenientResult, targetsFor_perm hmap]
  rfl

theorem lenientResult_congr {breakers : String → BreakerState} {weather' : Target → CallWeather}
    (hsame : ∀ t ∈ d.enabled.targets,
      SameOutcome d.cfg (breakers t.key) (weather t) (weather' t)) :
    (d.lenientResult breakers eventName weather).calls.map HookCallResult.unmeasured =
        (d.lenientResult breakers eventName weather').calls.map HookCallResult.unmeasured ∧
      (d.lenientResult breakers eventName weather).warnings =
        (d.lenientResult breakers eventName weather').warnings := by
  have hmap : ∀ p : Target → Bool,
      (((d.targetsFor eventName).filter p).map fun t =>
          outcome d.cfg (breakers t.key) t (weather t)).map HookCallResult.unmeasured =
        (((d.targetsFor eventName).filter p).map fun t =>
          outcome d.cfg (breakers t.key) t (weather' t)).map HookCallResult.unmeasured := by
    intro p
    rw [List.map_map, List.map_map]
    refine List.map_congr_left fun t ht => outcome_unmeasured (hsame t ?_) t
    exact (mem_targetsFor.mp (List.mem_filter.mp ht).1).1
  simp only [Dispatcher.lenientResult, Dispatcher.splitByIsolation]
  constructor
  · refine sortCalls_unmeasured ?_ (lenientResult_pluginIDs breakers)
    rw [List.map_append, List.map_append, hmap, hmap]
  · rw [← warningsOf_unmeasured, hmap, warningsOf_unmeasured,
      ← warningsOf_unmeasured (((d.targetsFor eventName).filter d.isIndependent).map _), hmap,
      warningsOf_unmeasured]

end

theorem isStrict_enabled (d : Dispatcher) (enabled' : Enabled) (eventName : String) :
    Dispatcher.isStrict { d with enabled := enabled' } eventName = d.isStrict eventName := rfl

/-- The calls of a result, apart from their durations, and its warnings are the same for
every order in which the goroutines take their steps, and in which the map of the
enabled targets is read. -/
theorem lenient_order_independent (d : Dispatcher) (enabled' : Enabled) (b₀ : Bus)
    (eventName : String) (encodeErr : Option String) (weather weather' : Target → CallWeather)
    (schedule schedule' : List ℕ) (b b' : Bus) (result result' : HookResult)
    (err err' : Option Plugin.AppError) (hlenient : d.isStrict eventName = false)
    (hmap : d.enabled.targets.Perm enabled'.targets)
    (hsame : ∀ t ∈ d.enabled.targets,
      SameOutcome d.cfg (b₀.breakers t.key) (weather t) (weather' t))
    (h : d.dispatch b₀ eventName encodeErr weather schedule = some (b, result, err))
    (h' : Dispatcher.dispatch { d with enabled := enabled' } b₀ eventName encodeErr weather'
      schedule' = some (b', result', err')) :
    result.calls.map HookCallResult.unmeasured = result'.calls.map HookCallResult.unmeasured ∧
      result.warnings = result'.warnings := by
  cases encodeErr with
  | some e =>
      obtain ⟨-, hresult⟩ := Prod.mk.inj (Option.some.inj h)
      obtain ⟨-, hresult'⟩ := Prod.mk.inj (Option.some.inj h')
      rw [← (Prod.mk.inj hresult).1, ← (Prod.mk.inj hresult').1]
      exact ⟨rfl, rfl⟩
  | none =>
      have hlenient' : ¬ d.isStrict eventName = true := by rw [hlenient]; simp
      rw [Dispatcher.dispatch] at h h'
      dsimp only at h h'
      rw [if_neg hlenient'] at h
      rw [isStrict_enabled, if_neg hlenient'] at h'
      obtain ⟨⟨c, r⟩, hr, heq⟩ := Option.map_eq_some_iff.mp h
      obtain ⟨⟨c', r'⟩, hr', heq'⟩ := Option.map_eq_some_iff.mp h'
      simp only [Prod.mk.injEq] at heq heq'
      obtain ⟨-, rfl, -⟩ := heq
      obtain ⟨-, rfl, -⟩ := heq'
      rw [dispatchLenient_result hr, dispatchLenient_result hr', lenientResult_perm hmap]
      exact lenientResult_congr hsame

def pairTargets : List Target :=
  [⟨"acme/a", "1.0.0", 1, "pair"⟩, ⟨"acme/b", "1.0.0", 1, "pair"⟩]

/-- Two plugins that run at a time. -/
def pairDispatcher : Dispatcher where
  cfg := Config.withDefaults ⟨0, 0, [], 0, 0⟩
  enabled := ⟨pairTargets, by decide, by decide⟩
  unmarshal json := if json = "pair" then some ⟨["nginx.after_reload"], "independent"⟩ else none

/-- The map read the other way round. -/
def pairSwapped : Enabled := ⟨pairTargets.reverse, by decide, by decide⟩

theorem pairDispatcher_lenient : pairDispatcher.isStrict "nginx.after_reload" = false := by
  have hnone : pairDispatcher.cfg.strictEvents.lookup "nginx.after_reload" = none := rfl
  have hinside : ¬ ".before_".toList <:+: "nginx.after_reload".toList := fun hinside =>
    absurd (hinside.subset (by decide : 'b' ∈ ".before_".toList)) (by decide)
  rw [Dispatcher.isStrict, hnone]
  exact decide_eq_false hinside

theorem pairDispatcher_targets : pairDispatcher.targetsFor "nginx.after_reload" = pairTargets := by
  have hfilter : pairDispatcher.enabled.targets.filter
      (pairDispatcher.declaresHook · "nginx.after_reload") = pairTargets := by decide
  have hlt : callKey "acme/a" "1.0.0" < callKey "acme/b" "1.0.0" := by
    rw [callKey, callKey, Prod.Lex.toLex_lt_toLex]
    exact .inl (by decide)
  have harranged := arranged_sortTargets pairTargets
  rw [Dispatcher.targetsFor, hfilter]
  refine harranged.perm.eq_of_pairwise (fun s t hs ht hle hge => ?_) harranged.sorted ?_
  · have hs' := harranged.perm.mem_iff.mp hs
    simp only [pairTargets, List.mem_cons, List.not_mem_nil, or_false] at hs' ht
    rcases hs' with rfl | rfl <;> rcases ht with rfl | rfl
    · rfl
    · exact absurd hge (not_le.mpr hlt)
    · exact absurd hle (not_le.mpr hlt)
    · rfl
  · simpa [pairTargets] using hlt.le

theorem dispatch_pair (d : Dispatcher) (b : Bus) (weather : Target → CallWeather)
    (schedule : List ℕ) (hlenient : d.isStrict "nginx.after_reload" = false)
    (htargets : d.targetsFor "nginx.after_reload" = pairTargets)
    (hsplit : d.splitByIsolation pairTargets = ([], pairTargets))
    (hends : (callIndependent d.cfg weather b pairTargets schedule).isSome) :
    ∃ b' result err, d.dispatch b "nginx.after_reload" none weather schedule =
      some (b', result, err) := by
  obtain ⟨⟨b', calls⟩, hcalls⟩ := Option.isSome_iff_exists.mp hends
  rw [Dispatcher.dispatch]
  dsimp only
  rw [if_neg (by rw [hlenient]; simp), Dispatcher.dispatchLenient, htargets, hsplit]
  dsimp only [sequentialLoop]
  rw [hcalls]
  exact ⟨_, _, _, rfl⟩

/-- The second plugin comes first, with another clock. -/
theorem lenient_order_swapped :
    ∃ b b' result result' err err',
      pairDispatcher.dispatch ⟨fun _ => .zero, []⟩ "nginx.after_reload" none
          (fun _ => ⟨0, some "refused", false, 1, 1⟩) [0, 0, 0, 0, 0, 1, 1, 1, 1, 1] =
        some (b, result, err) ∧
      Dispatcher.dispatch { pairDispatcher with enabled := pairSwapped }
          ⟨fun _ => .zero, []⟩ "nginx.after_reload" none
          (fun _ => ⟨5, some "refused", false, 7, 2⟩) [1, 1, 1, 1, 1, 0, 0, 0, 0, 0] =
        some (b', result', err') ∧
      result.calls.map HookCallResult.unmeasured = result'.calls.map HookCallResult.unmeasured ∧
      result.warnings = result'.warnings := by
  have hperm : pairDispatcher.enabled.targets.Perm pairSwapped.targets :=
    (List.reverse_perm pairTargets).symm
  obtain ⟨b, result, err, h⟩ := dispatch_pair pairDispatcher ⟨fun _ => .zero, []⟩
    (fun _ => ⟨0, some "refused", false, 1, 1⟩) [0, 0, 0, 0, 0, 1, 1, 1, 1, 1]
    pairDispatcher_lenient pairDispatcher_targets (by decide) (by rfl)
  obtain ⟨b', result', err', h'⟩ := dispatch_pair { pairDispatcher with enabled := pairSwapped }
    ⟨fun _ => .zero, []⟩ (fun _ => ⟨5, some "refused", false, 7, 2⟩)
    [1, 1, 1, 1, 1, 0, 0, 0, 0, 0] ((isStrict_enabled _ _ _).trans pairDispatcher_lenient)
    ((targetsFor_perm hperm).trans pairDispatcher_targets) (by decide) (by rfl)
  have hsame : ∀ t ∈ pairDispatcher.enabled.targets, SameOutcome pairDispatcher.cfg .zero
      ⟨0, some "refused", false, 1, 1⟩ ⟨5, some "refused", false, 7, 2⟩ :=
    fun _ _ => ⟨by decide, rfl, rfl⟩
  refine ⟨b, b', result, result', err, err', h, h', ?_⟩
  exact lenient_order_independent pairDispatcher pairSwapped ⟨fun _ => .zero, []⟩
    "nginx.after_reload" none _ _ _ _ b b' result result' err err' pairDispatcher_lenient
    hperm hsame h h'

end GoSite.Hookbus
