import GoSite.BufferedScanner
import GoSite.GuardedRuns

/-!
# The output streams of a command

A command writes to two pipes, and `RunStreaming` scans each of them. The steps of the
command and of the two scans come in any order; the command waits while a pipe is full.
-/
namespace GoSite.Commander
open LineScanner GuardedRuns

inductive OutputStream where
  | stdout
  | stderr
  deriving Repr, DecidableEq

/-- The buffer that `RunStreaming` gives to its scanners. -/
def scanBuffer : ScanLimits := ⟨64 * 1024, 1024 * 1024, by decide, by decide⟩

/-- What the command has not written yet, what is in the pipes, and the scanners. -/
structure Streaming where
  script : List (OutputStream × UInt8)
  pipe : OutputStream → List UInt8
  scanner : OutputStream → Scanner

/-- The command writes a byte, or a scanner does a round. -/
inductive StreamAction where
  | write
  | scan (stream : OutputStream) (n : ℕ)
  deriving Repr, DecidableEq

/-- The bytes of one stream. -/
def bytesOf (stream : OutputStream) (script : List (OutputStream × UInt8)) : List UInt8 :=
  (script.filter (·.1 = stream)).map Prod.snd

/-- The command has been started. -/
def Streaming.start (script : List (OutputStream × UInt8)) : Streaming :=
  ⟨script, fun _ => [], fun _ => Scanner.new scanBuffer⟩

/-- A pipe is closed when the command has written all. -/
def streamStep (capacity : ℕ) (s : Streaming) : StreamAction → Option Streaming
  | .write =>
      match s.script with
      | [] => none
      | (stream, b) :: rest =>
          if (s.pipe stream).length < capacity then
            some { s with
              script := rest
              pipe := Function.update s.pipe stream (s.pipe stream ++ [b]) }
          else none
  | .scan stream n =>
      match (s.scanner stream).round scanBuffer.limit (s.pipe stream) (s.script = []) n with
      | none => none
      | some (scanner, pipe) =>
          some { s with
            pipe := Function.update s.pipe stream pipe
            scanner := Function.update s.scanner stream scanner }

/-- What is given to `onChunk` for a stream. -/
def Streaming.chunks (s : Streaming) (stream : OutputStream) : List (List UInt8) :=
  (s.scanner stream).tokens.map fun token => token ++ [lf]

/-- Nothing more happens. -/
def Streaming.Final (capacity : ℕ) (s : Streaming) : Prop := ∀ a, streamStep capacity s a = none

/-- The command has written all, and each stream was read to its end. -/
def Streaming.Drained (s : Streaming) : Prop :=
  s.script = [] ∧ ∀ stream, s.pipe stream = [] ∧ (s.scanner stream).stopped = some .eof

/-- The chunks of each stream are its text, with `\r\n` read as `\n` and a line feed at the
end. -/
def Streaming.HandsOut (s : Streaming) (script : List (OutputStream × UInt8)) : Prop :=
  ∀ stream, (s.chunks stream).flatten = crlfToLf (withFinalNewline (bytesOf stream script))

/-- No line of the output fills the buffer. -/
def ShortLines (script : List (OutputStream × UInt8)) : Prop :=
  ∀ stream, ∀ l ∈ rawLines (bytesOf stream script), l.length < scanBuffer.limit

/-! ## Invariants -/

/-- Each scanner reads its stream. -/
def Streaming.Reads (script : List (OutputStream × UInt8)) (s : Streaming) : Prop :=
  ∀ stream, (s.scanner stream).Reads scanBuffer.limit (bytesOf stream script)
    (s.pipe stream ++ bytesOf stream s.script)

theorem reads_start (script : List (OutputStream × UInt8)) :
    (Streaming.start script).Reads script := fun _ => Scanner.reads_new scanBuffer _

theorem reads_step (capacity : ℕ) (script : List (OutputStream × UInt8)) (s : Streaming)
    (a : StreamAction) (t : Streaming) (h : s.Reads script)
    (hstep : streamStep capacity s a = some t) : t.Reads script := by
  intro other
  cases a with
  | write =>
      rw [streamStep] at hstep
      split at hstep
      · cases hstep
      · rename_i stream b rest hscript
        split_ifs at hstep with hroom
        obtain rfl := Option.some.inj hstep
        have hread := h other
        rw [hscript] at hread
        dsimp only
        by_cases hsame : other = stream
        · subst hsame
          rw [Function.update_self]
          simpa [bytesOf] using hread
        · rw [Function.update_of_ne hsame]
          simpa [bytesOf, Ne.symm hsame] using hread
  | scan stream n =>
      rw [streamStep] at hstep
      split at hstep
      · cases hstep
      · rename_i scanner pipe hround
        obtain rfl := Option.some.inj hstep
        dsimp only
        by_cases hsame : other = stream
        · subst hsame
          rw [Function.update_self, Function.update_self]
          refine Scanner.reads_round (h other) (fun hclosed => ?_) hround
          rw [decide_eq_true_eq] at hclosed
          rw [hclosed]
          rfl
        · rw [Function.update_of_ne hsame, Function.update_of_ne hsame]
          exact h other

/-- What is left to do. -/
def Streaming.work (s : Streaming) : ℕ :=
  3 * s.script.length + ((s.scanner .stdout).work + 2 * (s.pipe .stdout).length) +
    ((s.scanner .stderr).work + 2 * (s.pipe .stderr).length)

theorem work_step (capacity : ℕ) (s : Streaming) (a : StreamAction) (t : Streaming)
    (hstep : streamStep capacity s a = some t) : t.work < s.work := by
  cases a with
  | write =>
      rw [streamStep] at hstep
      split at hstep
      · cases hstep
      · rename_i stream b rest hscript
        split_ifs at hstep with hroom
        obtain rfl := Option.some.inj hstep
        cases stream <;> simp [Streaming.work, hscript] <;> omega
  | scan stream n =>
      rw [streamStep] at hstep
      split at hstep
      · cases hstep
      · rename_i scanner pipe hround
        obtain rfl := Option.some.inj hstep
        have hwork := Scanner.work_round hround
        cases stream <;> simp [Streaming.work] at hwork ⊢ <;> omega

/-- Every run comes to an end. -/
theorem exists_final (capacity : ℕ) (s : Streaming) :
    ∃ actions t, run (streamStep capacity) s actions = some t ∧ t.Final capacity := by
  induction hwork : s.work using Nat.strong_induction_on generalizing s with
  | _ work ih =>
      by_cases hfinal : s.Final capacity
      · exact ⟨[], s, rfl, hfinal⟩
      · rw [Streaming.Final, not_forall] at hfinal
        obtain ⟨a, ha⟩ := hfinal
        obtain ⟨t, ht⟩ := Option.ne_none_iff_exists'.mp ha
        obtain ⟨actions, u, hrun, hu⟩ := ih t.work (hwork ▸ work_step capacity s a t ht) t rfl
        exact ⟨a :: actions, u, by rw [run_cons, ht, Option.bind_some, hrun], hu⟩

/-! ## The end of a run -/

/-- A scanner of a final state has stopped, or waits at an empty pipe. -/
theorem final_scanner {capacity : ℕ} {script : List (OutputStream × UInt8)} {s : Streaming}
    (h : s.Reads script) (hfinal : s.Final capacity) (stream : OutputStream)
    (hgoes : (s.scanner stream).stopped = none) : s.pipe stream = [] ∧ s.script ≠ [] := by
  by_contra hready
  rw [not_and_or, not_not] at hready
  obtain ⟨n, hn⟩ := @Scanner.round_isSome _ _ _ _ (s.pipe stream) (s.script = []) (h stream) hgoes
    (hready.imp_right fun hempty => decide_eq_true hempty)
  obtain ⟨⟨scanner, pipe⟩, hround⟩ := Option.isSome_iff_exists.mp hn
  have hstep := hfinal (.scan stream n)
  rw [streamStep, hround] at hstep
  cases hstep

/-- At the end of a run the streams are drained and handed out, or a line was too long. -/
theorem final_iff {capacity : ℕ} (hcapacity : 0 < capacity)
    {script : List (OutputStream × UInt8)} {s : Streaming} (h : s.Reads script)
    (hfinal : s.Final capacity) : s.Drained ∧ s.HandsOut script ↔ ShortLines script := by
  constructor
  · rintro ⟨⟨-, hends⟩, -⟩ stream
    exact ((h stream).of_eof (hends stream).2).2.2
  · intro hshort
    have hstops : ∀ stream, (s.scanner stream).stopped ≠ some .tooLong := by
      intro stream hlong
      obtain ⟨l, hl, hlength⟩ := (h stream).of_tooLong hlong
      exact absurd (hshort stream l hl) (by omega)
    have hcases : ∀ stream, (s.scanner stream).stopped = none ∨
        (s.scanner stream).stopped = some .eof := by
      intro stream
      rcases hend : (s.scanner stream).stopped with - | end'
      · exact .inl rfl
      · cases end' with
        | eof => exact .inr rfl
        | tooLong => exact absurd hend (hstops stream)
    -- A scanner that waits leaves the next write to a full pipe, which is scanned.
    have hdone : ∀ stream, (s.scanner stream).stopped = some .eof := by
      intro stream
      refine (hcases stream).resolve_left fun hgoes => ?_
      obtain ⟨-, hscript⟩ := final_scanner h hfinal stream hgoes
      obtain ⟨⟨next, b⟩, rest, heq⟩ := List.exists_cons_of_ne_nil hscript
      have hwrite := hfinal .write
      rw [streamStep, heq] at hwrite
      dsimp only at hwrite
      split_ifs at hwrite with hroom
      have hfull : s.pipe next ≠ [] := by
        rintro hempty
        rw [hempty] at hroom
        exact hroom hcapacity
      rcases hcases next with hnext | hnext
      · exact hfull (final_scanner h hfinal next hnext).1
      · exact hfull (List.append_eq_nil_iff.mp ((h next).of_eof hnext).1).1
    have hempty : ∀ stream, s.pipe stream = [] ∧ bytesOf stream s.script = [] := fun stream =>
      List.append_eq_nil_iff.mp ((h stream).of_eof (hdone stream)).1
    refine ⟨⟨?_, fun stream => ⟨(hempty stream).1, hdone stream⟩⟩, fun stream => ?_⟩
    · by_contra hscript
      obtain ⟨⟨next, b⟩, rest, heq⟩ := List.exists_cons_of_ne_nil hscript
      have hnone := (hempty next).2
      rw [heq] at hnone
      simp [bytesOf] at hnone
    · obtain ⟨-, htokens, -⟩ := (h stream).of_eof (hdone stream)
      rw [← joinLines_scanLines, ← htokens, Streaming.chunks, joinLines, List.flatMap]

/-- Wherever a run ends, both streams are drained and handed out exactly when no line fills
the buffer of a scanner. -/
theorem streaming_drains_iff (capacity : ℕ) (hcapacity : 0 < capacity)
    (script : List (OutputStream × UInt8)) (actions : List StreamAction) (s : Streaming)
    (hrun : run (streamStep capacity) (.start script) actions = some s)
    (hfinal : s.Final capacity) : s.Drained ∧ s.HandsOut script ↔ ShortLines script := by
  have hreads := along_of_invariant (reads_step capacity script) actions (reads_start script)
  exact final_iff hcapacity (hreads.last hrun) hfinal

/-- A command that writes one byte. -/
theorem streaming_drains_byte :
    ∃ actions s, run (streamStep 1) (.start [(.stdout, 97)]) actions = some s ∧
      s.Drained ∧ s.HandsOut [(.stdout, 97)] := by
  obtain ⟨actions, s, hrun, hfinal⟩ := exists_final 1 (.start [(.stdout, 97)])
  refine ⟨actions, s, hrun, (streaming_drains_iff 1 (by decide) [(.stdout, 97)] actions s hrun
    hfinal).mpr fun stream => ?_⟩
  cases stream <;> decide

/-- A line of a MiB is not handed out. -/
theorem long_line_not_drained :
    ¬ ∀ (script : List (OutputStream × UInt8)) (actions : List StreamAction) (s : Streaming),
      run (streamStep 65536) (.start script) actions = some s → s.Final 65536 →
        s.Drained ∧ s.HandsOut script := by
  intro h
  obtain ⟨actions, s, hrun, hfinal⟩ :=
    exists_final 65536 (.start (List.replicate scanBuffer.limit (.stdout, 97)))
  have hreads := along_of_invariant (reads_step 65536 _) actions
    (reads_start (List.replicate scanBuffer.limit (.stdout, 97)))
  have hshort := (final_iff (by decide) (hreads.last hrun) hfinal).mp (h _ actions s hrun hfinal)
  have hbytes : bytesOf .stdout (List.replicate scanBuffer.limit (.stdout, 97)) =
      List.replicate scanBuffer.limit 97 := by simp [bytesOf]
  have hlf : lf ∉ List.replicate scanBuffer.limit (97 : UInt8) := by simp [List.mem_replicate, lf]
  have hne : List.replicate scanBuffer.limit (97 : UInt8) ≠ [] := by
    rw [ne_eq, List.replicate_eq_nil_iff]
    decide
  have hraw : rawLines (bytesOf .stdout (List.replicate scanBuffer.limit (.stdout, 97))) =
      [List.replicate scanBuffer.limit 97] := by
    rw [hbytes, rawLines_unfinished hlf, if_neg hne]
  have hline := hshort .stdout (List.replicate scanBuffer.limit 97)
    (hraw ▸ List.mem_singleton_self _)
  rw [List.length_replicate] at hline
  exact lt_irrefl _ hline

end GoSite.Commander
